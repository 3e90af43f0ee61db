import ResumableTemplates.Proofs.Meaning.Statements

/-! Compiled loops go through their list. Where a round begins the list and the number of items before
are in their slots, and the names are those around the loop: what a round leaves of its own is out of
sight when the next one begins. -/
namespace ResumableTemplates

open CompileState

section Loops

variable {S : Sources} {run : TemplateRef → Record → Written Unit} {w : World} {d unit : Nat}
  {t : CompiledTemplate} {σ τ υ χ ψ : CompileState} {out : Output} {ρ : Names} {a b : Activation}
  {var : String} {index : Option String} {list cursor item : Nat} {position : Option Nat}
  {nodes : List Node} {body : List Op}

theorem CompileState.Loops.stands (h : σ.Loops var index list cursor item position τ)
    (hσ : σ.scopes.Named) (ha : a.Stands unit t σ.scopes ρ) {i : Nat} {v : Value}
    (hitem : a.locals[item]? = some (.value v))
    (hposition : ∀ n ∈ position, a.locals[n]? = some (.value (.int (.ofNat i)))) :
    a.Stands unit t τ.scopes (ρ.item var index i v) := by
  obtain ⟨υ, χ, ψ, hlist, hcursor, hdeclared, hindex⟩ := h.declared
  have hυ := Compile.temporary_named hlist hσ
  have hχ := Compile.temporary_named hcursor hυ
  have hψ := Compile.declare_named hdeclared hχ.pointed
  have hloop : a.Stands unit t χ.scopes ρ :=
    (ha.agrees ((Compile.temporary_yields hlist).1.agrees hσ)).agrees
      ((Compile.temporary_yields hcursor).1.agrees hυ)
  have hone : a.Stands unit t ψ.scopes (ρ.bind (.bound var) v) :=
    hloop.declared hχ (v := .bound var) (Compile.declare_yields hdeclared).1 hitem
  cases index with
  | none =>
    obtain ⟨-, rfl⟩ := Compile.yields_pure.1 hindex
    exact hone
  | some name =>
    obtain ⟨m, hm, rfl⟩ := Compile.yields_map.1 hindex
    exact hone.declared hψ (v := .bound name) (Compile.declare_yields hm).1 (hposition m rfl)

/-- Holds of an activation that stands where a round of a loop begins, behind some items. -/
structure Activation.Rounds (unit : Nat) (t : CompiledTemplate) (s : Scopes) (ρ : Names)
    (out : Output) (list cursor room : Nat) (items : List Value) (i : Nat) (a : Activation) : Prop where
  stands : a.Stands unit t s ρ
  opens : out.Open s a
  list : a.locals[list]? = some (.value (.list items))
  cursor : a.locals[cursor]? = some (.cursor i)
  room : room ≤ a.locals.size

theorem Activation.Stands.begins {room : Nat} (h : a.Stands unit t υ.scopes ρ)
    (hout : out.Open υ.scopes a) (hroom : room ≤ a.locals.size)
    (hslots : LoopSlots υ.scopes.slots.size list cursor item position room) (p : Nat)
    (onEmpty : Option Nat) (vs : List Value) : ∃ b,
      (onEmpty = none ∨ vs ≠ [] →
        a.beginLoop p list cursor onEmpty (.list vs) = .ok (.goto (p + 1) b)) ∧
      (∀ target, onEmpty = some target → vs = [] →
        a.beginLoop p list cursor onEmpty (.list vs) = .ok (.goto target b)) ∧
      a.Gains υ.scopes.slots.size out "" b ∧
      b.Rounds unit t υ.scopes ρ out list cursor room vs 0 := by
  have hlist := hslots.list_eq
  have hcursor := hslots.cursor_eq
  have hitem := hslots.item_eq
  have hnext := hslots.room item List.mem_cons_self
  have hlist_lt : list < a.locals.size := by omega
  have hcursor_lt : cursor < a.locals.size := by omega
  obtain ⟨b, hb, hab, hbl, -⟩ := Activation.Gains.set (Nat.le_of_eq hlist.symm) hlist_lt
    (fun _ => hout.lt_size) (.value (.list vs))
  obtain ⟨c, hc, hbc, hcc, hother⟩ := Activation.Gains.set (hcursor ▸ Nat.le_succ _)
    (hab.room ▸ hcursor_lt) (fun _ => hout.lt_size) (.cursor 0)
  have hac := hab.trans hbc (Nat.le_refl _)
  refine ⟨c, fun hgo => ?_, fun target htarget hvs => ?_, hac,
    h.moved hac (Nat.le_refl _) hout (.refl _), hout.moved hac fun _ _ hi => hi,
    (hother list (by omega)).trans hbl, hcc, hac.room ▸ hroom⟩
  · simp only [Activation.beginLoop, hb, hc, Except.ok_bind]
    cases onEmpty with
    | none => rfl
    | some target =>
      cases vs with
      | nil => simp at hgo
      | cons v vs => rfl
  · subst htarget hvs
    simp only [Activation.beginLoop, hb, hc, Except.ok_bind]
    rfl

theorem Activation.Gains.setOption {size : Nat} (position : Option Nat)
    (hn : ∀ n ∈ position, size ≤ n ∧ n < a.locals.size) (hout : ∀ m, out = .buffer m → m < size)
    (l : Local) :
    ∃ b, (match position with
        | none => .ok a
        | some n => a.set n l : Except RenderError Activation) = .ok b ∧
      a.Gains size out "" b ∧ (∀ n ∈ position, b.locals[n]? = some l) ∧
      ∀ m, m ∉ position → b.locals[m]? = a.locals[m]? := by
  cases position with
  | none => exact ⟨a, rfl, .refl, fun _ h => (by cases h), fun _ _ => rfl⟩
  | some n =>
    obtain ⟨hle, hlt⟩ := hn n rfl
    obtain ⟨b, hb, hab, hbn, hother⟩ := Activation.Gains.set hle hlt hout l
    refine ⟨b, hb, hab, fun m hm => ?_, fun m hm => hother m fun he => hm (by rw [he]; rfl)⟩
    cases hm
    exact hbn

/-- A round begins with its item, its number and the names that they have. -/
theorem Activation.Rounds.next {room i : Nat} {items : List Value} {v : Value}
    (h : a.Rounds unit t υ.scopes ρ out list cursor room items i)
    (hslots : LoopSlots υ.scopes.slots.size list cursor item position room) (hv : items[i]? = some v)
    (p exit : Nat) : ∃ b, a.nextItem p list cursor item position exit = .ok (.goto (p + 1) b) ∧
      a.Gains υ.scopes.slots.size out "" b ∧
      b.Rounds unit t υ.scopes ρ out list cursor room items (i + 1) ∧
      b.locals[item]? = some (.value v) ∧
      ∀ n ∈ position, b.locals[n]? = some (.value (.int (.ofNat i))) := by
  have hlist := hslots.list_eq
  have hcursor := hslots.cursor_eq
  have hitem := hslots.item_eq
  have hroom := h.room
  have hbounds : ∀ n ∈ item :: position.toList, cursor < n ∧ n < a.locals.size := fun n hn =>
    ⟨hcursor ▸ hslots.lt_variable hn, Nat.lt_of_lt_of_le (hslots.room n hn) hroom⟩
  have hposition : ∀ n ∈ position, item ≠ n ∧ cursor < n ∧ n < a.locals.size := fun n hn =>
    ⟨by have := hslots.position_eq n hn; omega,
      hbounds n (List.mem_cons_of_mem _ (Option.mem_toList.2 hn))⟩
  obtain ⟨hitem_lt, hitem_room⟩ := hbounds item List.mem_cons_self
  have hout : ∀ m, out = .buffer m → m < υ.scopes.slots.size := fun _ => h.opens.lt_size
  obtain ⟨b, hb, hab, hbi, hbo⟩ := Activation.Gains.set (by omega) hitem_room hout (.value v)
  obtain ⟨b', hb', hbb', hbp, hbo'⟩ := Activation.Gains.setOption (a := b) position
    (fun n hn => ⟨by have := hposition n hn; omega, hab.room ▸ (hposition n hn).2.2⟩) hout
    (.value (.int (.ofNat i)))
  have hab' := hab.trans hbb' (Nat.le_refl _)
  obtain ⟨c, hc, hbc, hcc, hco⟩ := Activation.Gains.set (hcursor ▸ Nat.le_succ _)
    (hab'.room ▸ Nat.lt_trans hitem_lt hitem_room) hout (.cursor (i + 1))
  have hac := hab'.trans hbc (Nat.le_refl _)
  have hlist_kept : c.locals[list]? = some (.value (.list items)) := by
    rw [hco list (by omega), hbo' list fun hn => ?_, hbo list (by omega), h.list]
    have := hposition list hn
    omega
  refine ⟨c, ?_, hac, ⟨h.stands.moved hac (Nat.le_refl _) h.opens (.refl _),
    h.opens.moved hac fun _ _ hi => hi, hlist_kept, hcc, hac.room ▸ hroom⟩, ?_, fun n hn => ?_⟩
  · have hvalue : a.value list = .ok (.list items) := Activation.value_of h.list
    have hnumber : a.cursor cursor = .ok i := by rw [Activation.cursor, h.cursor]
    simp only [Activation.nextItem, hnumber, hvalue, hv, hb, Except.ok_bind]
    cases position with
    | none =>
      obtain rfl := Except.ok.inj hb'
      rw [Except.pure_eq, Except.ok_bind, hc]
      rfl
    | some n =>
      have hn : b.set n (.value (.int (.ofNat i))) = .ok b' := hb'
      simp only [hn, hc, Except.ok_bind]
      rfl
  · rw [hco item (by omega), hbo' item fun hn => (hposition item hn).1 rfl, hbi]
  · rw [hco n (by have := hposition n hn; omega), hbp n hn]

theorem LoopSlots.mono {first next next' : Nat}
    (h : LoopSlots first list cursor item position next) (hle : next ≤ next') :
    LoopSlots first list cursor item position next' :=
  { h with room := fun n hn => Nat.lt_of_lt_of_le (h.room n hn) hle }

namespace Fragment.Means

variable {u : Value} {f : Fragment} {ops rest : List Op} {exit : Nat} {onEmpty : Option Nat}
  {e : Expr} {c : Code} {top : Scope} {outer : List Scope}
  (hloop : υ.entered.Loops var index list cursor item position χ)
  (hbody : (Fragment.scope (.block out "" nodes)).Means S run w d unit t χ.placed body ψ)
  (hbe : Emits (.scope (.block out "" nodes)) χ.placed body ψ)

include hloop hbody hbe

/-- The rounds of a loop, by induction on the items that are left. -/
theorem rounds (hυ : υ.scopes.Named)
    (hnext : t.procedure.ops[χ.position]? = some (.forNext list cursor item position exit))
    (hhas : t.Has χ.placed.position (body ++ .jump χ.position :: rest)) {items : List Value}
    (vs : List Value) (i : Nat) (hvs : items.drop i = vs)
    (ha : a.Rounds unit t υ.scopes ρ out list cursor ψ.scopes.slots.size items i) :
    Does w d υ.scopes.slots.size out χ.position exit a (fun _ _ => True)
      (Written.forItems (fun i v => do
        let _ ← Node.interpretBlock S run unit t.name nodes (ρ.item var index i v)) i vs) := by
  have hslots := hloop.slots.mono hbe.grows.size_le
  induction vs generalizing i a with
  | nil =>
    have hv : items[i]? = none := List.getElem?_eq_none (List.drop_eq_nil_iff.1 hvs)
    have hact : a.action w χ.position (.forNext list cursor item position exit) =
        .ok (.goto exit a) := by
      have hvalue : a.value list = .ok (.list items) := Activation.value_of ha.list
      have hnumber : a.cursor cursor = .ok i := by rw [Activation.cursor, ha.cursor]
      simp only [Activation.action, Activation.nextItem, hnumber, hvalue, hv, Except.ok_bind]
      rfl
    exact .goto (ha.stands.template ▸ hnext) hact .refl trivial
  | cons v vs ih =>
    have hv : items[i]? = some v := by
      rw [← Nat.add_zero i, ← List.getElem?_drop, hvs]
      rfl
    have hvs' : items.drop (i + 1) = vs := by rw [← List.drop_drop, hvs]; rfl
    obtain ⟨b, hact, hab, hb, hitem, hposition⟩ := ha.next hslots hv χ.position exit
    have hgrows := hloop.grows.1
    have hsize : υ.scopes.slots.size ≤ χ.scopes.slots.size := hgrows.size_le
    have hstart : (Fragment.scope (.block out "" nodes)).Starts unit t out .null
        (ρ.item var index i v) b χ.placed body ψ :=
      ⟨rfl, (hloop.named hυ.entered).placed, hb.room, hhas.left,
        hloop.stands hυ.entered (hb.stands.agrees (Scopes.agrees_entered υ)) hitem hposition,
        hb.opens.grown hgrows.slots, trivial⟩
    -- The round is over where the jump leads back.
    have hround : Does w d υ.scopes.slots.size out χ.placed.position ψ.position b
        (fun _ c => c.Rounds unit t υ.scopes ρ out list cursor ψ.scopes.slots.size items (i + 1)) _ :=
      (hbody out .null _ b hstart).mono hsize fun _ c hbc _ => by
        have hkept : ∀ n, n < χ.scopes.slots.size → υ.scopes.slots.size ≤ n →
            c.locals[n]? = b.locals[n]? := fun n hn hle => hbc.kept n hn fun hout =>
          Nat.lt_irrefl n (Nat.lt_of_lt_of_le (hb.opens.lt_size hout) hle)
        have hlist : list = υ.scopes.slots.size := hslots.list_eq
        have hcursor : cursor = υ.scopes.slots.size + 1 := hslots.cursor_eq
        have hitem : item = υ.scopes.slots.size + 2 := hslots.item_eq
        have hnext := hloop.slots.room item List.mem_cons_self
        exact ⟨hb.stands.moved hbc hsize hb.opens (.refl _), hb.opens.moved hbc fun _ _ hi => hi,
          (hkept list (by omega) (by omega)).trans hb.list,
          (hkept cursor (by omega) (by omega)).trans hb.cursor, hbc.room ▸ hb.room⟩
    have hback : t.procedure.ops[ψ.position]? = some (.jump χ.position) := by
      rw [hbe.position]
      exact hhas.right.head
    have hop : a.template.procedure.ops[χ.position]? =
        some (.forNext list cursor item position exit) := ha.stands.template ▸ hnext
    refine .after hop hact hab ?_
    rw [Written.forItems, ← Fragment.interpret_scope_block_bind]
    refine hround.bind (Nat.le_refl _) fun _ c _ _ hc => ?_
    exact .after (hc.stands.template ▸ hback) rfl .refl (ih (i + 1) hvs' hc)

theorem loop {vs : List Value} (h : f.Starts unit t out u ρ a υ
      (.forInit υ.points.size c list cursor onEmpty ::
        .forNext list cursor item position ψ.placed.position :: (body ++ .jump χ.position :: rest)) τ)
    (hsize : ψ.scopes.slots.size ≤ τ.scopes.slots.size)
    (hact : a.action w υ.position (.forInit υ.points.size c list cursor onEmpty) =
      a.beginLoop υ.position list cursor onEmpty (.list vs)) (hgo : onEmpty = none ∨ vs ≠ []) :
    Does w d υ.scopes.slots.size out υ.position ψ.placed.position a (fun _ _ => True)
      (Written.forItems (fun i v => do
        let _ ← Node.interpretBlock S run unit t.name nodes (ρ.item var index i v)) 0 vs) := by
  have hroom := Nat.le_trans hsize h.room
  have hposition : χ.position = υ.position + 1 := hloop.grows.2
  obtain ⟨b, hb, -, hab, hr⟩ := h.stands.begins h.opens hroom
    (hloop.slots.mono hbe.grows.size_le) υ.position onEmpty vs
  have hstart := hact.trans (hb hgo)
  have hnext := h.has.tail
  have hhas := h.has.tail.tail
  rw [← hposition] at hstart hnext hhas
  refine .after (h.op h.has.head) hstart hab ?_
  exact rounds hloop hbody hbe h.named hnext.head hhas vs 0 rfl hr

variable (hw : S.Fits w) (hc : e.compile.Yields σ c υ) (hstack : ψ.scopes.stack = top :: outer)

include hw hc hstack

theorem each : (Fragment.node out (.each var index e nodes none)).Means S run w d unit t σ
    (.forInit υ.points.size c list cursor none ::
      .forNext list cursor item position ψ.placed.position :: (body ++ [.jump χ.position]))
    (ψ.placed.left outer) := by
  have hs := Expr.compile_same hc
  refine .of_same hs fun o u ρ a h => ?_
  obtain rfl : out = o := h.writes
  obtain ⟨hrest, hslots⟩ := Emits.loop_stack hloop hbe hstack
  have hagrees : υ.scopes.Agrees (ψ.placed.left outer).scopes :=
    h.named.agrees (by rw [hrest]; rfl) hslots
  have hop := h.op h.has.head
  have hact : a.action w υ.position (.forInit υ.points.size c list cursor none) =
      c.result w a >>= fun v => a.beginLoop υ.position list cursor none v := rfl
  rw [Expr.compile_outcome hw hc (hs.scopes ▸ h.stands)] at hact
  rw [interpret, Node.interpret]
  refine .eval hop hact fun v _ hact => ?_
  cases v with
  | list vs =>
    have hrounds := loop hloop hbody hbe h (Nat.le_refl _) hact (.inl rfl)
    cases vs <;> exact hrounds.bind (Nat.le_refl _) fun _ b _ hab _ =>
      .pure ⟨h.stands.moved hab (Nat.le_refl _) h.opens hagrees, trivial⟩
  | _ => exact .fail hop hact

theorem eachElse {otherwise : List Node}
    (hother : (Fragment.scope (.block out "" otherwise)).Means S run w d unit t
      (ψ.placed.left outer).placed ops τ)
    (hoe : Emits (.scope (.block out "" otherwise)) (ψ.placed.left outer).placed ops τ) :
    (Fragment.node out (.each var index e nodes (some otherwise))).Means S run w d unit t σ
      (.forInit υ.points.size c list cursor (some ψ.placed.placed.position) ::
        .forNext list cursor item position ψ.placed.position ::
          (body ++ .jump χ.position :: .jump τ.position :: ops)) τ := by
  have hs := Expr.compile_same hc
  refine .of_same hs fun o u ρ a h => ?_
  obtain rfl : out = o := h.writes
  obtain ⟨hrest, hslots⟩ := Emits.loop_stack hloop hbe hstack
  have hnamed : (ψ.placed.left outer).placed.scopes.Named :=
    hrest ▸ h.named.grown (τ := ψ.placed) hslots
  have hloop_agrees : υ.scopes.Agrees (ψ.placed.left outer).placed.scopes :=
    h.named.agrees (by rw [hrest]; rfl) hslots
  have hloop_size : υ.scopes.slots.size ≤ ψ.scopes.slots.size :=
    Nat.le_trans hloop.grows.1.size_le hbe.grows.size_le
  have hagrees : υ.scopes.Agrees τ.scopes := hloop_agrees.trans (hoe.agrees_of_stack hnamed hoe.stack)
  have hψ : t.Has ψ.placed.position (.jump τ.position :: ops) := by
    have := h.has.tail.tail.right.tail
    have hχ : χ.position = υ.position + 1 := hloop.grows.2
    have hψ : ψ.placed.position = υ.position + 1 + 1 + body.length + 1 := by
      rw [← hχ]
      exact congrArg (· + 1) hbe.position
    rwa [hψ]
  have hop := h.op h.has.head
  have hact : a.action w υ.position (.forInit υ.points.size c list cursor (some ψ.placed.placed.position)) =
      c.result w a >>= fun v =>
        a.beginLoop υ.position list cursor (some ψ.placed.placed.position) v := rfl
  rw [Expr.compile_outcome hw hc (hs.scopes ▸ h.stands)] at hact
  rw [interpret, Node.interpret]
  refine .eval hop hact fun v _ hact => ?_
  cases v with
  | list vs =>
    have hsize : ψ.scopes.slots.size ≤ τ.scopes.slots.size := hoe.grows.size_le
    cases vs with
    | nil =>
      obtain ⟨b, -, hb, hab, hr⟩ := h.stands.begins h.opens (Nat.le_trans hsize h.room)
        (hloop.slots.mono hbe.grows.size_le) υ.position (some ψ.placed.placed.position) []
      have hstart : (Fragment.scope (.block out "" otherwise)).Starts unit t out .null ρ b
          (ψ.placed.left outer).placed ops τ :=
        ⟨rfl, hnamed, hab.room ▸ h.room, hψ.tail, hr.stands.agrees hloop_agrees,
          hr.opens.grown hslots, trivial⟩
      refine .after hop (hact.trans (hb _ rfl rfl)) hab ?_
      change Does _ _ _ _ _ _ _ _
        (Node.interpretElse S run unit t.name (some otherwise) ρ >>= fun _ => pure ρ)
      rw [Node.interpretElse, ← interpret_scope_block_bind (u := .null)]
      refine hother.andThen hoe hstart hloop_size fun ρ' c hr _ hc _ _ => .pure ⟨?_, trivial⟩
      obtain rfl := Written.eq_of_return hr
      exact hc
    | cons v vs =>
      have hrounds := loop hloop hbody hbe h hsize hact (.inr (List.cons_ne_nil v vs))
      refine hrounds.bind (Nat.le_refl _) fun _ b _ hab _ => ?_
      exact .goto (hab.template ▸ h.op hψ.head) rfl .refl
        ⟨h.stands.moved hab (Nat.le_refl _) h.opens hagrees, trivial⟩
  | _ => exact .fail hop hact

end Fragment.Means

end Loops

end ResumableTemplates
