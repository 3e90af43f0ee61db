import ResumableTemplates.Proofs.Compile.Discipline
import ResumableTemplates.Proofs.Compile.Injected

/-! Compilation as small steps: an op is placed, with a resume point or without, or only the scopes
change. What a step keeps of the table of resume points, a whole compilation keeps. Main statement: in
the table each point is that of one op, the positions ascend, and a point lists the slots that are live
in ascending order. -/
namespace ResumableTemplates

open CompileState

def Op.Within (size : Nat) (op : Op) : Prop := ∀ n ∈ op.slots ++ op.writes, n < size

/-- Holds of ops with a table of resume points and a layout for them. -/
structure Tabled (ops : List Op) (points : Array ResumeEntry) (layout : Array SlotInfo) : Prop where
  opOf : ∀ (i : Nat) e, points[i]? = some e → ∃ op, ops[e.position]? = some op ∧ op.point? = some i
  entryOf : ∀ (q i : Nat) op, ops[q]? = some op → op.point? = some i →
    ∃ live, points[i]? = some ⟨q, live⟩
  ascending : ∀ (i j : Nat) e e', i < j → points[i]? = some e → points[j]? = some e' →
    e.position < e'.position
  live : ∀ e ∈ points, e.live.Pairwise (· < ·) ∧
    ∀ n ∈ e.live, ∃ info, layout[n]? = some info ∧ info.kind.isRematerialized = false
  within : ∀ op ∈ ops, op.Within layout.size

/-- Holds of two states with one step or more between them, in which ops are placed. -/
inductive CompileState.Advances : CompileState → List Op → CompileState → Prop
  | same : σ.Same τ → Advances σ [] τ
  | allocated : σ.scopes.Allocated n info bound s → Advances σ [] { σ with scopes := s }
  | entered : Advances σ [] σ.entered
  | left : σ.scopes.stack = top :: rest → Advances σ [] (σ.left rest)
  | placed : op.point? = none → op.Within σ.scopes.slots.size → Advances σ [op] σ.placed
  | pointed : op.point? = some σ.points.size → op.Within σ.scopes.slots.size →
      Advances σ [op] σ.pointed
  | trans : Advances σ xs υ → Advances υ ys τ → Advances σ (xs ++ ys) τ

theorem Scopes.Orderly.kind_of_live {s : Scopes} {n : Nat} (hs : s.Orderly) (hn : n ∈ s.live) :
    ∃ info, s.slots[n]? = some info ∧ info.kind.isRematerialized = false := by
  unfold live at hn
  simp only [List.mem_reverse, List.mem_filter, List.mem_flatMap] at hn
  obtain ⟨⟨sc, hsc, hn⟩, hkind⟩ := hn
  have hslot := Array.getElem?_eq_getElem (hs.lt_size hsc hn)
  refine ⟨_, hslot, ?_⟩
  simpa [kindOf?, hslot] using hkind

namespace Tabled

variable {ops : List Op} {points : Array ResumeEntry} {layout layout' : Array SlotInfo} {op : Op}

theorem nil (layout : Array SlotInfo) : Tabled [] #[] layout where
  opOf _ _ h := by simp at h
  entryOf _ _ _ h := nomatch h
  ascending _ _ _ _ _ h := by simp at h
  live _ h := by simp at h
  within _ h := nomatch h

theorem lt_length (h : Tabled ops points layout) {i : Nat} {e : ResumeEntry}
    (hi : points[i]? = some e) : e.position < ops.length := by
  obtain ⟨op, hop, -⟩ := h.opOf i e hi
  exact (List.getElem?_eq_some_iff.1 hop).1

theorem grown (h : Tabled ops points layout)
    (hslots : ∀ (i : Nat) info, layout[i]? = some info → layout'[i]? = some info)
    (hsize : layout.size ≤ layout'.size) : Tabled ops points layout' where
  opOf := h.opOf
  entryOf := h.entryOf
  ascending := h.ascending
  live e he := by
    refine ⟨(h.live e he).1, fun n hn => ?_⟩
    obtain ⟨info, hi, hkind⟩ := (h.live e he).2 n hn
    exact ⟨info, hslots n info hi, hkind⟩
  within op hop n hn := Nat.lt_of_lt_of_le (h.within op hop n hn) hsize

theorem within_append (h : Tabled ops points layout) (hop : op.Within layout.size) :
    ∀ op' ∈ ops ++ [op], op'.Within layout.size := by
  intro op' hmem
  obtain hmem | hmem := List.mem_append.1 hmem
  · exact h.within op' hmem
  · exact List.mem_singleton.1 hmem ▸ hop

theorem placed (h : Tabled ops points layout) (hpoint : op.point? = none)
    (hop : op.Within layout.size) : Tabled (ops ++ [op]) points layout where
  opOf i e hi := by
    obtain ⟨op', hop', hpt⟩ := h.opOf i e hi
    exact ⟨op', by rw [List.getElem?_append_left (h.lt_length hi), hop'], hpt⟩
  entryOf q i op' hq hpt := by
    rw [List.getElem?_append] at hq
    split at hq
    · exact h.entryOf q i op' hq hpt
    · obtain rfl : op' = op := by simpa using List.mem_of_getElem? hq
      cases hpoint.symm.trans hpt
  ascending := h.ascending
  live := h.live
  within := h.within_append hop

theorem pointed (h : Tabled ops points layout) (hpoint : op.point? = some points.size)
    (hop : op.Within layout.size) {live : List Nat} (hlive : live.Pairwise (· < ·))
    (hkinds : ∀ n ∈ live, ∃ info, layout[n]? = some info ∧ info.kind.isRematerialized = false) :
    Tabled (ops ++ [op]) (points.push ⟨ops.length, live⟩) layout where
  opOf i e hi := by
    rw [Array.getElem?_push] at hi
    split at hi
    · rename_i hnew
      cases hi
      exact ⟨op, List.getElem?_concat_length, hnew ▸ hpoint⟩
    · obtain ⟨op', hop', hpt⟩ := h.opOf i e hi
      exact ⟨op', by rw [List.getElem?_append_left (h.lt_length hi), hop'], hpt⟩
  entryOf q i op' hq hpt := by
    rw [List.getElem?_append] at hq
    split at hq
    · obtain ⟨live', hi⟩ := h.entryOf q i op' hq hpt
      have hne : i ≠ points.size := Nat.ne_of_lt (Array.getElem?_eq_some_iff.1 hi).1
      exact ⟨live', by rw [Array.getElem?_push, if_neg hne, hi]⟩
    · rename_i hle
      obtain rfl : op' = op := by simpa using List.mem_of_getElem? hq
      obtain rfl : points.size = i := Option.some.inj (hpoint.symm.trans hpt)
      obtain rfl : q = ops.length := by
        have := (List.getElem?_eq_some_iff.1 hq).1
        simp only [List.length_singleton] at this
        omega
      exact ⟨live, Array.getElem?_push_size⟩
  ascending i j e e' hij hi hj := by
    rw [Array.getElem?_push] at hi hj
    have hlt : i ≠ points.size := by
      intro he
      rw [if_neg (by omega), Array.getElem?_eq_none (by omega)] at hj
      cases hj
    rw [if_neg hlt] at hi
    split at hj
    · cases hj
      exact h.lt_length hi
    · exact h.ascending i j e e' hij hi hj
  live e he := by
    obtain he | rfl := Array.mem_push.1 he
    · exact h.live e he
    · exact ⟨hlive, hkinds⟩
  within := h.within_append hop

end Tabled

/-- Holds of ops, from the first position on, and of the state behind them. -/
structure CompileState.Charted (σ : CompileState) (ops : List Op) : Prop where
  position : σ.position = ops.length
  orderly : σ.scopes.Orderly
  tabled : Tabled ops σ.points σ.scopes.slots

namespace CompileState.Charted

variable {ops xs : List Op} {σ τ : CompileState}

theorem advances (h : σ.Charted ops) (hst : σ.Advances xs τ) : τ.Charted (ops ++ xs) := by
  induction hst generalizing ops with
  | same hs =>
    rw [List.append_nil]
    exact ⟨hs.position.trans h.position, hs.scopes ▸ h.orderly, hs.scopes ▸ hs.points ▸ h.tabled⟩
  | allocated ha =>
    rw [List.append_nil]
    exact ⟨h.position, h.orderly.allocated ha,
      h.tabled.grown ha.slots_grown (by rw [ha.slots, Array.size_push]; exact Nat.le_succ _)⟩
  | entered =>
    rw [List.append_nil]
    exact ⟨h.position, h.orderly.enter, h.tabled⟩
  | left hstack =>
    rw [List.append_nil]
    exact ⟨h.position, h.orderly.exit hstack, h.tabled⟩
  | placed hpoint hop =>
    exact ⟨by simp [CompileState.placed, h.position], h.orderly, h.tabled.placed hpoint hop⟩
  | pointed hpoint hop =>
    refine ⟨by simp [CompileState.pointed, h.position], h.orderly, ?_⟩
    rw [CompileState.pointed, h.position]
    exact h.tabled.pointed hpoint hop h.orderly.live_ascending fun n => h.orderly.kind_of_live
  | trans _ _ ih ih' =>
    rw [← List.append_assoc]
    exact ih' (ih h)

end CompileState.Charted

def Fragment.needs : Fragment → List Nat
  | text out _ | node out _ | block out .. | optional out _ | branches out .. | selection out ..
  | call out .. | children out _ => out.slots
  | cases out subject .. => subject :: out.slots
  | args .. => []
  | scope f => f.needs

structure Fragment.Fed (f : Fragment) (σ : CompileState) : Prop where
  named : σ.scopes.Named
  needs : ∀ n ∈ f.needs, n < σ.scopes.slots.size

section Emits

variable {f g : Fragment} {σ τ υ χ ψ : CompileState} {n point : Nat} {out : Output} {size : Nat}
  {xs ys ops body : List Op} {op : Op}

theorem Fragment.Fed.moved (h : f.Fed σ) (hle : σ.scopes.slots.size ≤ τ.scopes.slots.size)
    (hτ : τ.scopes.Named) : f.Fed τ :=
  ⟨hτ, fun n hn => Nat.lt_of_lt_of_le (h.needs n hn) hle⟩

theorem Fragment.Fed.same (h : f.Fed σ) (hs : σ.Same τ) : f.Fed τ :=
  h.moved (CompileState.Grows.of_same hs).size_le (h.named.same hs)

theorem Fragment.Fed.behind (h : f.Fed σ) (hops : Emits g σ ops τ) : f.Fed τ :=
  h.moved hops.grows.size_le (hops.named h.named)

theorem Fragment.Fed.as (h : f.Fed σ) (hneeds : g.needs = f.needs) : g.Fed σ :=
  ⟨h.named, hneeds ▸ h.needs⟩

theorem IsTemporary.lt_size {layout : Array SlotInfo} (h : IsTemporary layout n) :
    n < layout.size := by
  obtain ⟨info, hinfo, -⟩ := h
  exact (Array.getElem?_eq_some_iff.1 hinfo).1

theorem Op.Within.of_slots (hwrites : ∀ n ∈ op.writes, n ∈ op.slots)
    (h : ∀ n ∈ op.slots, n < size) : op.Within size := fun n hn =>
  (List.mem_append.1 hn).elim (h n) fun hn => h n (hwrites n hn)

theorem Op.within_text {s : String} (h : ∀ n ∈ out.slots, n < size) :
    (Op.text point out s).Within size :=
  .of_slots (by cases out <;> exact fun _ hn => hn) h

theorem Op.within_print {c : Code} (h : ∀ n ∈ out.slots, n < size) :
    (Op.print point out c).Within size :=
  .of_slots (by cases out <;> exact fun _ hn => hn) h

theorem Op.within_call {callee : Callee} {base : ParamsBase} {args : List (String × ArgSource)}
    (h : ∀ n ∈ out.slots, n < size) (hargs : ∀ n ∈ args.flatMap (·.2.slots), n < size) :
    (Op.call point out callee base args).Within size := by
  apply Within.of_slots
  · cases out with
    | sink => exact fun _ hn => nomatch hn
    | buffer m => exact fun n hn => List.mem_append_left _ hn
  · exact List.forall_mem_append.2 ⟨h, hargs⟩

namespace CompileState.Advances

theorem refl (σ : CompileState) : σ.Advances [] σ := .same (.refl σ)

theorem after (h : υ.Advances ops τ) (hσ : σ.Advances [] υ) : σ.Advances ops τ := hσ.trans h

theorem temporary {label : String} (h : (Compile.temporary label).Yields σ n τ) :
    σ.Advances [] τ ∧ n < τ.scopes.slots.size := by
  obtain ⟨s, hs, rfl⟩ := Compile.yields_onScopes.1 h
  have ha := Scopes.temporary_ok hs
  exact ⟨.allocated ha, by rw [ha.slot, ha.slots, Array.size_push]; exact Nat.lt_succ_self _⟩

theorem declare {name : String} {type : VarType} (h : (Compile.declare name type).Yields σ n τ) :
    σ.Advances [] τ ∧ n < τ.scopes.slots.size := by
  obtain ⟨s, hs, rfl⟩ := Compile.yields_onScopes.1 h
  have ha := Scopes.declare_ok hs
  exact ⟨.allocated ha, by rw [ha.slot, ha.slots, Array.size_push]; exact Nat.lt_succ_self _⟩

theorem declareIndex {index : Option String} {m : Option Nat}
    (h : (Node.declareIndex index).Yields σ m τ) :
    σ.Advances [] τ ∧ ∀ n ∈ m, n < τ.scopes.slots.size := by
  cases index with
  | none =>
    obtain ⟨rfl, rfl⟩ := Compile.yields_pure.1 h
    exact ⟨.refl _, fun _ hn => nomatch hn⟩
  | some name =>
    obtain ⟨n, hn, rfl⟩ := Compile.yields_map.1 h
    exact ⟨(declare hn).1, fun _ hm => Option.some.inj hm ▸ (declare hn).2⟩

variable {var : String} {index position : Option _} {list cursor item : Nat}

theorem loops (h : σ.Loops var index list cursor item position τ) (c : Code) (onEmpty : Option Nat) :
    σ.Advances [.forInit σ.points.size c list cursor onEmpty] τ ∧
      ∀ exit, (Op.forNext list cursor item position exit).Within τ.scopes.slots.size := by
  obtain ⟨υ, χ, ψ, hlist, hcursor, hitem, hindex⟩ := h.declared
  have hpoints : χ.points = σ.points :=
    (Compile.temporary_grows hcursor).2.2.trans (Compile.temporary_grows hlist).2.2
  have hχ : list < χ.scopes.slots.size ∧ cursor < χ.scopes.slots.size :=
    ⟨Nat.lt_of_lt_of_le (temporary hlist).2 (Compile.temporary_grows hcursor).1.size_le,
      (temporary hcursor).2⟩
  have hψτ : ψ.scopes.slots.size ≤ τ.scopes.slots.size := (Node.declareIndex_grows hindex).1.size_le
  have hχτ : χ.scopes.slots.size ≤ τ.scopes.slots.size :=
    Nat.le_trans (Compile.declare_grows hitem).1.size_le hψτ
  have hinit : (Op.forInit χ.points.size c list cursor onEmpty).Within χ.scopes.slots.size := by
    intro n hn
    obtain rfl | rfl : n = list ∨ n = cursor := by simpa [Op.slots, Op.writes] using hn
    · exact hχ.1
    · exact hχ.2
  constructor
  · rw [← hpoints]
    apply Advances.after _ ((temporary hlist).1.trans (temporary hcursor).1)
    exact (Advances.pointed rfl hinit).trans ((declare hitem).1.trans (declareIndex hindex).1)
  · intro exit n hn
    simp only [Op.slots, Op.writes, List.mem_append, List.mem_cons, List.not_mem_nil, or_false,
      Option.mem_toList] at hn
    obtain (rfl | rfl) | rfl | rfl | hn := hn
    · exact Nat.lt_of_lt_of_le hχ.1 hχτ
    · exact Nat.lt_of_lt_of_le hχ.2 hχτ
    · exact Nat.lt_of_lt_of_le hχ.2 hχτ
    · exact Nat.lt_of_lt_of_le (declare hitem).2 hψτ
    · exact (declareIndex hindex).2 n hn

variable {e : Expr} {top : Scope} {rest : List Scope}

theorem jump (σ : CompileState) (target : Nat) : σ.Advances [.jump target] σ.placed :=
  .placed rfl fun _ hn => nomatch hn

theorem store {slot : Nat} {c : Code} {forces : Bool} (hslot : slot < σ.scopes.slots.size) :
    σ.Advances [.store σ.points.size slot c forces] σ.pointed :=
  .pointed rfl fun _ hn => List.mem_singleton.1 hn ▸ hslot

theorem each {onEmpty : Option Nat} {exit head : Nat} {c : Code} (hc : e.compile.Yields σ c υ)
    (hpre : υ.entered.Loops var index list cursor item position χ)
    (hbody : χ.placed.Advances body ψ) (hstack : ψ.scopes.stack = top :: rest) :
    σ.Advances (.forInit υ.points.size c list cursor onEmpty ::
      .forNext list cursor item position exit :: (body ++ [.jump head])) (ψ.placed.left rest) := by
  obtain ⟨hinit, hnext⟩ := loops hpre c onEmpty
  have hloop : χ.Advances (.forNext list cursor item position exit :: (body ++ [.jump head]))
      (ψ.placed.left rest) :=
    (Advances.placed rfl (hnext exit)).trans (hbody.trans ((jump ψ head).trans (.left hstack)))
  exact .after (.after (hinit.trans hloop) .entered) (.same (Expr.compile_same hc))

theorem eachElse {onEmpty : Option Nat} {exit head target : Nat} {c : Code}
    (hc : e.compile.Yields σ c υ) (hpre : υ.entered.Loops var index list cursor item position χ)
    (hbody : χ.placed.Advances body ψ) (hstack : ψ.scopes.stack = top :: rest)
    (hops : (ψ.placed.left rest).placed.Advances ops τ) :
    σ.Advances (.forInit υ.points.size c list cursor onEmpty ::
      .forNext list cursor item position exit ::
        (body ++ .jump head :: .jump target :: ops)) τ := by
  have hloop : σ.Advances (.forInit υ.points.size c list cursor onEmpty ::
      .forNext list cursor item position exit :: (body ++ [.jump head])) (ψ.placed.left rest) :=
    each hc hpre hbody hstack
  simpa using hloop.trans ((jump _ target).trans hops)

theorem choice {test : Op} {target : Nat} (hs : σ.Same υ) (htest : test.point? = some υ.points.size)
    (hwithin : test.Within υ.scopes.slots.size) (hbody : υ.pointed.Advances body χ)
    (hops : χ.placed.Advances ops τ) : σ.Advances (test :: (body ++ .jump target :: ops)) τ :=
  .after ((Advances.pointed htest hwithin).trans (hbody.trans ((jump χ target).trans hops))) (.same hs)

theorem capture {label : String} {buffer dest : Nat} {kind : ContentKind}
    (hbuffer : (Compile.temporary label).Yields σ buffer υ) (hbody : υ.placed.Advances body χ)
    (hdest : χ.Advances [] ψ) (hlt : ∀ n ∈ [buffer, dest], n < ψ.scopes.slots.size)
    (hops : ψ.placed.Advances ops τ) :
    σ.Advances (.beginCapture buffer :: (body ++ .endCapture buffer dest kind :: ops)) τ := by
  obtain ⟨htemporary, hroom⟩ := temporary hbuffer
  have hbegin : υ.Advances [.beginCapture buffer] υ.placed :=
    .placed rfl fun _ hn => List.mem_singleton.1 hn ▸ hroom
  have hend : ψ.Advances [.endCapture buffer dest kind] ψ.placed := by
    apply Advances.placed rfl
    intro n hn
    apply hlt n
    simpa [Op.slots, Op.writes] using hn
  exact .after (hbegin.trans (hbody.trans (.after (hend.trans hops) hdest))) htemporary

end CompileState.Advances

/-- What is emitted for a fragment is placed step by step. -/
theorem Emits.advances (h : Emits f σ ops τ) (hf : f.Fed σ) : σ.Advances ops τ := by
  induction h with
  | noText | absent | noArgs | noChildren => exact .refl _
  | text => exact .pointed rfl (Op.within_text hf.needs)
  | raw _ ih | branch _ ih | switch _ ih | invoke _ ih | done _ ih | join _ ih | present _ ih
  | otherwise _ ih => exact ih (hf.as rfl)
  | noCase _ ih => exact ih ⟨hf.named, fun n hn => hf.needs n (List.mem_cons_of_mem _ hn)⟩
  | print hc =>
    have hs := Expr.compile_same hc
    exact .after (.pointed rfl (Op.within_print (hf.same hs).needs)) (.same hs)
  | each hc hpre _ hstack ih =>
    have hυ := hf.same (Expr.compile_same hc)
    have hχ := hυ.moved hpre.grows.1.size_le (hpre.named hυ.named.entered)
    exact .each hc hpre (ih ⟨hχ.named, hχ.needs⟩) hstack
  | eachElse hc hpre hbody hstack _ ih ih' =>
    have hυ := hf.same (Expr.compile_same hc)
    have hχ := hυ.moved hpre.grows.1.size_le (hpre.named hυ.named.entered)
    have hgrows := hpre.grows.1.trans (Grows.placed.trans hbody.grows)
    obtain ⟨rfl, hslots⟩ := Emits.loop_stack hpre hbody hstack
    have hnamed := (hυ.named.grown (τ := CompileState.placed _) hslots).placed
    have hneeds := fun n hn => Nat.lt_of_lt_of_le (hυ.needs n hn) hgrows.size_le
    exact .eachElse hc hpre (ih ⟨hχ.named, hχ.needs⟩) hstack (ih' ⟨hnamed, hneeds⟩)
  | bind hc hslot =>
    obtain ⟨hdeclare, hlt⟩ := Advances.declare hslot
    exact .after (.after (.store hlt) hdeclare) (.same (Expr.compile_same hc))
  | capture hbuffer hbody hdest ih =>
    obtain ⟨hdeclare, hlt⟩ := Advances.declare hdest
    have hroom := (Advances.temporary hbuffer).2
    have hle := Nat.le_trans hbody.grows.size_le (Compile.declare_grows hdest).1.size_le
    have hυ := Compile.temporary_named hbuffer hf.named
    refine .capture hbuffer (ih ⟨hυ, ?_⟩) hdeclare ?_ (.refl _)
    · exact List.forall_mem_singleton.2 hroom
    · exact List.forall_mem_cons.2 ⟨Nat.lt_of_lt_of_le hroom hle, List.forall_mem_singleton.2 hlt⟩
  | tag hstart hbody hstop ih ih' ih'' =>
    have hυ := hf.behind hstart
    exact ((ih (hf.as rfl)).trans (ih' (hυ.as rfl))).trans (ih'' ((hυ.behind hbody).as rfl))
  | cons hstart hbody hstop ih ih' ih'' =>
    have hυ := hf.behind hstart
    exact ((ih (hf.as rfl)).trans (ih' (hυ.as rfl))).trans (ih'' ((hυ.behind hbody).as rfl))
  | test hc hbody _ ih ih' =>
    have hs := Expr.compile_same hc
    have hυ : Fragment.Fed _ (CompileState.pointed _) := ⟨(hf.same hs).named, (hf.same hs).needs⟩
    have hχ := hυ.behind hbody
    exact .choice hs rfl (fun _ hn => nomatch hn) (ih (hυ.as rfl)) (ih' ⟨hχ.named, hχ.needs⟩)
  | selection hc hsubject _ ih =>
    have hυ := hf.same (Expr.compile_same hc)
    obtain ⟨htemporary, hlt⟩ := Advances.temporary hsubject
    have hχ := hυ.moved (Compile.temporary_grows hsubject).1.size_le
      (Compile.temporary_named hsubject hυ.named)
    have hcases := ih ⟨hχ.named, List.forall_mem_cons.2 ⟨hlt, hχ.needs⟩⟩
    exact .after (.after ((Advances.store hlt).trans hcases) htemporary)
      (.same (Expr.compile_same hc))
  | «case» hvalues hbody _ ih ih' =>
    have hs := Compile.IsQuiet.all _ _ _ _ hvalues
    have hυ : Fragment.Fed _ (CompileState.pointed _) := ⟨(hf.same hs).named, (hf.same hs).needs⟩
    have hχ := hυ.behind hbody
    obtain ⟨hsubject, hout⟩ := List.forall_mem_cons.1 hυ.needs
    refine .choice hs rfl ?_ (ih ⟨hυ.named, hout⟩) (ih' ⟨hχ.named, hχ.needs⟩)
    exact List.forall_mem_singleton.2 hsubject
  | call hargs hbase hcallee ih =>
    have hs := (Compile.IsQuiet.paramsBase _ _ _ _ hbase).trans
      (Compile.IsQuiet.callee _ _ _ _ hcallee)
    have hψ := (hf.behind hargs).same hs
    have hcontents := (hargs.comes (Q := fun _ => True) hf.named (fun _ _ h => h)
      fun _ _ => trivial).1.2
    have hlt := fun n hn => (hcontents n hn).lt_size
    refine (ih ⟨hf.named, fun _ hn => nomatch hn⟩).trans (.after (.pointed rfl ?_) (.same hs))
    exact Op.within_call hψ.needs (hs.scopes ▸ hlt)
  | value hc _ ih =>
    have hs := Expr.compile_same hc
    exact .after (ih ⟨(hf.same hs).named, fun _ hn => nomatch hn⟩) (.same hs)
  | keyed hc _ ih =>
    have hs := Expr.compile_same hc
    exact .after (ih ((hf.same hs).as rfl)) (.same hs)
  | content hbuffer hbody hrest ih ih' =>
    have hυ := Compile.temporary_named hbuffer hf.named
    have hroom := (Advances.temporary hbuffer).2
    have hlt := Nat.lt_of_lt_of_le hroom hbody.grows.size_le
    refine .capture hbuffer (ih ⟨hυ, List.forall_mem_singleton.2 hroom⟩) (.refl _) ?_
      (ih' ⟨hbody.named hυ, fun _ hn => nomatch hn⟩)
    exact List.forall_mem_cons.2 ⟨hlt, List.forall_mem_singleton.2 hlt⟩
  | child hn _ ih ih' => exact (ih (hf.as rfl)).trans (ih' ((hf.behind hn).as rfl))
  | scope _ hstack ih =>
    have hbody := ih ⟨hf.named.entered, hf.needs⟩
    simpa using (Advances.entered.trans hbody).trans (.left hstack)

end Emits

end ResumableTemplates
