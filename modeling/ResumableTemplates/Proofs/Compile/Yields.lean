import ResumableTemplates.Proofs.Compile.Listing

/-! Compilations that succeed, taken apart: what each part of one yields, and in which state it leaves
the compiler. Expressions change nothing but the numbers of sites. -/
namespace ResumableTemplates

namespace Compile

def Yields (m : Compile α) (σ : CompileState) (a : α) (τ : CompileState) : Prop := m σ = (.ok a, τ)

variable {σ τ : CompileState}

theorem bind_apply (m : Compile α) (f : α → Compile β) (σ : CompileState) :
    (m >>= f) σ = match m σ with
      | (.ok a, τ) => f a τ
      | (.error e, τ) => (.error e, τ) := by
  have h : (m >>= f) σ = ExceptT.bindCont f (m σ).1 (m σ).2 := rfl
  rw [h]
  rcases m σ with ⟨_ | _, τ⟩ <;> rfl

theorem yields_bind {m : Compile α} {f : α → Compile β} {b : β} :
    (m >>= f).Yields σ b τ ↔ ∃ a υ, m.Yields σ a υ ∧ (f a).Yields υ b τ := by
  simp only [Yields, bind_apply]
  rcases m σ with ⟨_ | a, υ⟩
  · exact ⟨nofun, nofun⟩
  · refine ⟨fun h => ⟨a, υ, rfl, h⟩, ?_⟩
    rintro ⟨_, _, ⟨⟩, h⟩
    exact h

theorem yields_pure {a b : α} : (pure a : Compile α).Yields σ b τ ↔ b = a ∧ τ = σ :=
  ⟨fun h => by cases h; exact ⟨rfl, rfl⟩, fun ⟨h, h'⟩ => by rw [h, h']; rfl⟩

theorem yields_map {m : Compile α} {f : α → β} {b : β} :
    (f <$> m).Yields σ b τ ↔ ∃ a, m.Yields σ a τ ∧ b = f a := by
  rw [map_eq_pure_bind, yields_bind]
  refine ⟨fun ⟨a, υ, h, h'⟩ => ?_, fun ⟨a, h, h'⟩ => ⟨a, τ, h, yields_pure.2 ⟨h', rfl⟩⟩⟩
  obtain ⟨rfl, rfl⟩ := yields_pure.1 h'
  exact ⟨a, h, rfl⟩

theorem yields_get {a : CompileState} : (get : Compile CompileState).Yields σ a τ ↔
    a = σ ∧ τ = σ :=
  ⟨fun h => by cases h; exact ⟨rfl, rfl⟩, fun ⟨h, h'⟩ => by rw [h, h']; rfl⟩

theorem yields_modify {f : CompileState → CompileState} {u : PUnit} :
    (modify f : Compile PUnit).Yields σ u τ ↔ τ = f σ :=
  ⟨fun h => by cases h; rfl, fun h => by rw [h]; rfl⟩

theorem not_yields_throw {e : CompileError} {a : α} :
    ¬ (throw e : Compile α).Yields σ a τ := fun h => by cases h

theorem not_yields_contradiction {i : Inconsistency} {a : α} :
    ¬ (contradiction i : Compile α).Yields σ a τ := by
  rw [contradiction, yields_bind]
  rintro ⟨_, _, _, h⟩
  exact not_yields_throw h

theorem yields_onScopes {f : Scopes → Except CompileError (α × Scopes)} {a : α} :
    (onScopes f).Yields σ a τ ↔ ∃ s, f σ.scopes = .ok (a, s) ∧ τ = { σ with scopes := s } := by
  rw [onScopes, yields_bind]
  constructor
  · rintro ⟨_, _, h, h'⟩
    obtain ⟨rfl, rfl⟩ := yields_get.1 h
    split at h'
    · rename_i b s hf
      obtain ⟨_, _, h, h'⟩ := yields_bind.1 h'
      rw [yields_modify] at h
      obtain ⟨rfl, rfl⟩ := yields_pure.1 h'
      exact ⟨s, hf, h⟩
    · exact (not_yields_throw h').elim
  · rintro ⟨s, hf, rfl⟩
    refine ⟨σ, σ, rfl, ?_⟩
    rw [hf]
    rfl

theorem yields_newSite {n : Nat} (h : newSite.Yields σ n τ) :
    τ = { σ with nextSite := σ.nextSite + 1 } := by
  cases h
  rfl

theorem yields_place {u : Unit} : place.Yields σ u τ ↔ τ = { σ with position := σ.position + 1 } :=
  yields_modify

theorem yields_here {n : Nat} : here.Yields σ n τ ↔ n = σ.position ∧ τ = σ := by
  rw [here, yields_bind]
  constructor
  · rintro ⟨_, _, h, h'⟩
    obtain ⟨rfl, rfl⟩ := yields_get.1 h
    exact yields_pure.1 h'
  · rintro ⟨rfl, rfl⟩
    exact ⟨_, _, rfl, rfl⟩

theorem yields_placePoint {n : Nat} (h : placePoint.Yields σ n τ) : n = σ.points.size ∧
    τ = { σ with
      position := σ.position + 1
      points := σ.points.push ⟨σ.position, σ.scopes.live⟩ } := by
  rw [placePoint, yields_bind] at h
  obtain ⟨_, _, h, h'⟩ := h
  obtain ⟨rfl, rfl⟩ := yields_get.1 h
  dsimp only at h'
  split at h'
  · cases h'
    exact ⟨rfl, rfl⟩
  · exact (not_yields_contradiction h').elim

end Compile

namespace Scopes

variable {s s' : Scopes}

structure Allocated (s : Scopes) (n : Nat) (info : SlotInfo) (bound : List (String × Nat))
    (s' : Scopes) : Prop where
  slot : n = s.slots.size
  slots : s'.slots = s.slots.push info
  stack : ∃ top rest, s.stack = top :: rest ∧
    s'.stack = ⟨top.id, bound ++ top.bindings, n :: top.owned⟩ :: rest
  fresh : ∀ b ∈ bound, ∀ top ∈ s.stack.head?, top.bindings.lookup b.1 = none
  template : s'.template = s.template
  nextId : s'.nextId = s.nextId

theorem declare_ok {name : String} {type : VarType} {kind : SlotKind} {slot : Nat}
    (h : s.declare name type kind = .ok (slot, s')) :
    s.Allocated slot ⟨name, type, kind⟩ [(name, slot)] s' := by
  unfold declare at h
  split at h
  · cases h
  · rename_i top rest hstack
    split at h
    · cases h
    · rename_i hnone
      unfold allocate at h
      dsimp only at h
      split at h
      · cases h
        refine ⟨rfl, rfl, ⟨top, rest, hstack, rfl⟩, ?_, rfl, rfl⟩
        rintro _ hb _ ht
        rw [List.mem_singleton.1 hb]
        rw [hstack] at ht
        cases ht
        exact Option.not_isSome_iff_eq_none.1 hnone
      · cases h

theorem temporary_ok {label : String} {slot : Nat} (h : s.temporary label = .ok (slot, s')) :
    s.Allocated slot ⟨label, .unknown, .synthetic⟩ [] s' := by
  unfold temporary at h
  split at h
  · cases h
  · rename_i top rest hstack
    unfold allocate at h
    dsimp only at h
    split at h
    · cases h
      exact ⟨rfl, rfl, ⟨top, rest, hstack, rfl⟩, fun _ hb => (by cases hb), rfl, rfl⟩
    · cases h

theorem exit_ok {id : UInt32} (h : s.exit id = .ok s') : ∃ top rest, s.stack = top :: rest ∧
    s' = { s with stack := rest } := by
  unfold exit at h
  split at h
  · cases h
  · rename_i top rest hstack
    split at h <;> cases h
    exact ⟨top, rest, hstack, rfl⟩

end Scopes

namespace Compile

variable {σ τ : CompileState}

theorem yields_inScope {c : Compile α} {a : α} (h : (inScope c).Yields σ a τ) :
    ∃ υ top rest, c.Yields { σ with scopes := σ.scopes.enter.2 } a υ ∧
      υ.scopes.stack = top :: rest ∧ τ = { υ with scopes := { υ.scopes with stack := rest } } := by
  rw [inScope, yields_bind] at h
  obtain ⟨id, _, henter, h⟩ := h
  obtain ⟨_, hs, rfl⟩ := yields_onScopes.1 henter
  cases hs
  obtain ⟨b, υ, hc, h⟩ := yields_bind.1 h
  obtain ⟨_, _, hexit, h⟩ := yields_bind.1 h
  obtain ⟨s, hs, rfl⟩ := yields_onScopes.1 hexit
  obtain ⟨rfl, rfl⟩ := yields_pure.1 h
  cases hx : υ.scopes.exit σ.scopes.nextId with
  | error e =>
    rw [hx] at hs
    cases hs
  | ok s' =>
    obtain ⟨top, rest, hstack, rfl⟩ := Scopes.exit_ok hx
    rw [hx] at hs
    cases hs
    exact ⟨υ, top, rest, hc, hstack, rfl⟩

end Compile

namespace CompileState

structure Same (σ τ : CompileState) : Prop where
  scopes : τ.scopes = σ.scopes
  position : τ.position = σ.position
  points : τ.points = σ.points

theorem Same.refl (σ : CompileState) : σ.Same σ := ⟨rfl, rfl, rfl⟩

theorem Same.trans {σ τ υ : CompileState} (h : σ.Same τ) (h' : τ.Same υ) : σ.Same υ :=
  ⟨h'.scopes.trans h.scopes, h'.position.trans h.position, h'.points.trans h.points⟩

end CompileState

theorem VarRef.compile_yields {σ τ : CompileState} {v : VarRef} {c : Code}
    (h : v.compile.Yields σ c τ) : τ = σ ∧ ((∃ slot, v.slot? σ.scopes = some slot ∧ c = .slot slot) ∨
      v.slot? σ.scopes = none ∧ ∃ name, v = .injected name ∧ c = .injected name) := by
  unfold VarRef.compile at h
  obtain ⟨_, _, hget, hv⟩ := Compile.yields_bind.1 h
  obtain ⟨rfl, rfl⟩ := Compile.yields_get.1 hget
  split at hv
  · rename_i slot hslot
    obtain ⟨rfl, rfl⟩ := Compile.yields_pure.1 hv
    exact ⟨rfl, .inl ⟨slot, hslot, rfl⟩⟩
  · rename_i hslot
    split at hv
    · obtain ⟨rfl, rfl⟩ := Compile.yields_pure.1 hv
      exact ⟨rfl, .inr ⟨hslot, _, rfl, rfl⟩⟩
    · exact (Compile.not_yields_contradiction hv).elim

inductive Expr.Lowers : Expr → CompileState → Code → CompileState → Prop
  | folded : e.fold? = some v → Lowers e σ (.const v) σ
  | literal : Lowers (.literal l) σ (.const l.value) σ
  | slot : v.slot? σ.scopes = some n → Lowers (.var v) σ (.slot n) σ
  | injected : (VarRef.injected n).slot? σ.scopes = none →
      Lowers (.var (.injected n)) σ (.injected n) σ
  | binary : l.compile.Yields σ x υ → r.compile.Yields υ y τ →
      Lowers (.binary op l r) σ (.binary op x y) τ
  | unary : e.compile.Yields σ x τ → Lowers (.unary op e) σ (.unary op x) τ
  | cond : c.compile.Yields σ x υ → t.compile.Yields υ y χ → e.compile.Yields χ z τ →
      Lowers (.cond c t e) σ (.cond x y z) τ
  | list : (Expr.compileAll es).Yields σ cs τ → Lowers (.list es) σ (.list cs) τ
  | record : (Expr.compileFields fs).Yields σ cs τ → Lowers (.record fs) σ (.record cs) τ
  | field : b.compile.Yields σ x τ → Lowers (.field b n s) σ (.field x n s) τ
  | index : b.compile.Yields σ x υ → k.compile.Yields υ y τ →
      Lowers (.index b k) σ (.index x y) τ
  | builtin : (Expr.compileAll es).Yields σ cs τ → Lowers (.builtin f es) σ (.builtin f cs) τ
  | template : Lowers (.template n) σ (.template σ.nextSite n)
      { σ with nextSite := σ.nextSite + 1 }
  | element : Lowers (.element i n none) σ (.element i n none) σ
  | described : Lowers (.element i n (some table)) σ (.element i n (some (σ.nextSite, table)))
      { σ with nextSite := σ.nextSite + 1 }

inductive CallTarget.Lowers : CallTarget → CompileState → Callee → CompileState → Prop
  | template : Lowers (.template n) σ (.template σ.nextSite n)
      { σ with nextSite := σ.nextSite + 1, calls := σ.calls.push (σ.nextSite, n) }
  | delegate : Lowers (.delegate n none allowEmpty) σ (.delegate n none allowEmpty) σ
  | variant : v.compile.Yields σ c τ →
      Lowers (.delegate n (some v) allowEmpty) σ (.delegate n (some c) allowEmpty) τ

inductive CallData.Lowers : CallData → CompileState → ParamsBase → CompileState → Prop
  | none : Lowers .none σ .none σ
  | all : Lowers .all σ .all σ
  | expr : e.compile.Yields σ c τ → Lowers (.expr e) σ (.code c) τ

section Lowers

open Compile

variable {σ τ : CompileState}

theorem Expr.compile_lowers {e : Expr} {c : Code} (h : e.compile.Yields σ c τ) : e.Lowers σ c τ := by
  unfold Expr.compile at h
  split at h
  · obtain ⟨rfl, rfl⟩ := yields_pure.1 h
    exact .folded ‹_›
  · cases e with
    | literal l =>
      obtain ⟨rfl, rfl⟩ := yields_pure.1 h
      exact .literal
    | var v =>
      obtain ⟨rfl, ⟨slot, hslot, rfl⟩ | ⟨hslot, name, rfl, rfl⟩⟩ := v.compile_yields h
      · exact .slot hslot
      · exact .injected hslot
    | binary op l r =>
      obtain ⟨x, υ, hx, h⟩ := yields_bind.1 h
      obtain ⟨y, _, hy, h⟩ := yields_bind.1 h
      obtain ⟨rfl, rfl⟩ := yields_pure.1 h
      exact .binary hx hy
    | unary op e =>
      obtain ⟨x, _, hx, h⟩ := yields_bind.1 h
      obtain ⟨rfl, rfl⟩ := yields_pure.1 h
      exact .unary hx
    | cond c t e =>
      obtain ⟨x, υ, hx, h⟩ := yields_bind.1 h
      obtain ⟨y, χ, hy, h⟩ := yields_bind.1 h
      obtain ⟨z, _, hz, h⟩ := yields_bind.1 h
      obtain ⟨rfl, rfl⟩ := yields_pure.1 h
      exact .cond hx hy hz
    | list es =>
      obtain ⟨cs, _, hcs, h⟩ := yields_bind.1 h
      obtain ⟨rfl, rfl⟩ := yields_pure.1 h
      exact .list hcs
    | record fs =>
      obtain ⟨cs, _, hcs, h⟩ := yields_bind.1 h
      obtain ⟨rfl, rfl⟩ := yields_pure.1 h
      exact .record hcs
    | field b n s =>
      obtain ⟨x, _, hx, h⟩ := yields_bind.1 h
      obtain ⟨rfl, rfl⟩ := yields_pure.1 h
      exact .field hx
    | index b k =>
      obtain ⟨x, υ, hx, h⟩ := yields_bind.1 h
      obtain ⟨y, _, hy, h⟩ := yields_bind.1 h
      obtain ⟨rfl, rfl⟩ := yields_pure.1 h
      exact .index hx hy
    | builtin f es =>
      obtain ⟨cs, _, hcs, h⟩ := yields_bind.1 h
      obtain ⟨rfl, rfl⟩ := yields_pure.1 h
      exact .builtin hcs
    | template n =>
      obtain ⟨i, _, hi, h⟩ := yields_bind.1 h
      obtain ⟨rfl, rfl⟩ := yields_pure.1 h
      cases hi
      exact .template
    | element i n table =>
      cases table with
      | none =>
        obtain ⟨rfl, rfl⟩ := yields_pure.1 h
        exact .element
      | some table =>
        obtain ⟨i, _, hi, h⟩ := yields_bind.1 h
        obtain ⟨rfl, rfl⟩ := yields_pure.1 h
        cases hi
        exact .described

theorem Expr.compileAll_nil {cs : List Code} (h : (Expr.compileAll []).Yields σ cs τ) :
    cs = [] ∧ τ = σ :=
  yields_pure.1 h

theorem Expr.compileAll_cons {e : Expr} {es : List Expr} {cs : List Code}
    (h : (Expr.compileAll (e :: es)).Yields σ cs τ) :
    ∃ c υ ds, e.compile.Yields σ c υ ∧ (Expr.compileAll es).Yields υ ds τ ∧ cs = c :: ds := by
  obtain ⟨c, υ, hc, h⟩ := yields_bind.1 h
  obtain ⟨ds, _, hds, h⟩ := yields_bind.1 h
  obtain ⟨rfl, rfl⟩ := yields_pure.1 h
  exact ⟨c, υ, ds, hc, hds, rfl⟩

theorem Expr.compileFields_nil {cs : List (String × Code)}
    (h : (Expr.compileFields []).Yields σ cs τ) : cs = [] ∧ τ = σ :=
  yields_pure.1 h

theorem Expr.compileFields_cons {k : String} {e : Expr} {fs : List (String × Expr)}
    {cs : List (String × Code)} (h : (Expr.compileFields ((k, e) :: fs)).Yields σ cs τ) :
    ∃ c υ ds, e.compile.Yields σ c υ ∧ (Expr.compileFields fs).Yields υ ds τ ∧
      cs = (k, c) :: ds := by
  obtain ⟨c, υ, hc, h⟩ := yields_bind.1 h
  obtain ⟨ds, _, hds, h⟩ := yields_bind.1 h
  obtain ⟨rfl, rfl⟩ := yields_pure.1 h
  exact ⟨c, υ, ds, hc, hds, rfl⟩

theorem Compile.callee_lowers {target : CallTarget} {callee : Callee}
    (h : (Compile.callee target).Yields σ callee τ) : target.Lowers σ callee τ := by
  match target with
  | .template n =>
    obtain ⟨site, _, hsite, h⟩ := yields_bind.1 h
    obtain ⟨_, _, hcall, h⟩ := yields_bind.1 h
    obtain ⟨rfl, rfl⟩ := yields_pure.1 h
    cases hsite
    cases hcall
    exact .template
  | .delegate n none allowEmpty =>
    obtain ⟨rfl, rfl⟩ := yields_pure.1 h
    exact .delegate
  | .delegate n (some v) allowEmpty =>
    obtain ⟨c, _, hc, h⟩ := yields_bind.1 h
    obtain ⟨rfl, rfl⟩ := yields_pure.1 h
    exact .variant hc

theorem Compile.paramsBase_lowers {data : CallData} {base : ParamsBase}
    (h : (paramsBase data).Yields σ base τ) : data.Lowers σ base τ := by
  cases data with
  | none =>
    obtain ⟨rfl, rfl⟩ := yields_pure.1 h
    exact .none
  | all =>
    obtain ⟨rfl, rfl⟩ := yields_pure.1 h
    exact .all
  | expr e =>
    obtain ⟨c, _, hc, h⟩ := yields_bind.1 h
    obtain ⟨rfl, rfl⟩ := yields_pure.1 h
    exact .expr hc

end Lowers

/-- Holds of the compilations that change nothing but sites and calls. -/
def Compile.IsQuiet (m : Compile α) : Prop := ∀ σ a τ, m.Yields σ a τ → σ.Same τ

namespace Compile.IsQuiet

theorem pure (a : α) : (Pure.pure a : Compile α).IsQuiet := by
  intro σ b τ h
  obtain ⟨-, rfl⟩ := yields_pure.1 h
  exact .refl _

theorem bind {m : Compile α} {f : α → Compile β} (h : m.IsQuiet) (hf : ∀ a, (f a).IsQuiet) :
    (m >>= f).IsQuiet := by
  intro σ b τ hb
  obtain ⟨a, υ, ha, hb⟩ := yields_bind.1 hb
  exact (h _ _ _ ha).trans (hf _ _ _ _ hb)

theorem map {m : Compile α} (f : α → β) (h : m.IsQuiet) : (f <$> m).IsQuiet := by
  intro σ b τ hb
  obtain ⟨a, ha, -⟩ := yields_map.1 hb
  exact h _ _ _ ha

theorem newSite : Compile.newSite.IsQuiet := by
  intro σ n τ h
  rw [yields_newSite h]
  exact ⟨rfl, rfl, rfl⟩

theorem var (v : VarRef) : v.compile.IsQuiet := by
  intro σ c τ h
  rw [(v.compile_yields h).1]
  exact .refl _

mutual

theorem expr (e : Expr) : e.compile.IsQuiet := by
  unfold Expr.compile
  split
  · exact .pure _
  · cases e with
    | literal l => exact .pure _
    | var v => exact .var v
    | binary op l r => exact .bind (expr l) fun _ => .bind (expr r) fun _ => .pure _
    | unary op e => exact .bind (expr e) fun _ => .pure _
    | cond c t e => exact .bind (expr c) fun _ => .bind (expr t) fun _ => .bind (expr e) fun _ => .pure _
    | list es => exact .bind (all es) fun _ => .pure _
    | record fs => exact .bind (fields fs) fun _ => .pure _
    | field b n s => exact .bind (expr b) fun _ => .pure _
    | index b k => exact .bind (expr b) fun _ => .bind (expr k) fun _ => .pure _
    | builtin f es => exact .bind (all es) fun _ => .pure _
    | template n => exact .bind .newSite fun _ => .pure _
    | element i n t =>
      cases t with
      | none => exact .pure _
      | some t => exact .bind .newSite fun _ => .pure _

theorem all (es : List Expr) : (Expr.compileAll es).IsQuiet := by
  cases es with
  | nil => exact .pure _
  | cons e es => exact .bind (expr e) fun _ => .bind (all es) fun _ => .pure _

theorem fields (fs : List (String × Expr)) : (Expr.compileFields fs).IsQuiet := by
  match fs with
  | [] => exact .pure _
  | (k, e) :: fs => exact .bind (expr e) fun _ => .bind (fields fs) fun _ => .pure _

end

theorem paramsBase (d : CallData) : (Compile.paramsBase d).IsQuiet := by
  cases d with
  | expr e => exact .bind (.expr e) fun _ => .pure _
  | _ => exact .pure _

theorem callee (t : CallTarget) : (Compile.callee t).IsQuiet := by
  match t with
  | .template n =>
    refine .bind .newSite fun site => .bind (fun σ _ τ h => ?_) fun _ => .pure _
    rw [yields_modify.1 h]
    exact ⟨rfl, rfl, rfl⟩
  | .delegate n none b => exact .pure _
  | .delegate n (some v) b => exact .bind (.expr v) fun _ => .pure _

end Compile.IsQuiet

end ResumableTemplates
