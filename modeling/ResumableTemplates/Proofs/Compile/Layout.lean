import ResumableTemplates.Proofs.Compile.Growth
import ResumableTemplates.Proofs.Compile.Scopes

/-! Compiled bodies are laid out: every op finds the slots it reads set, and what is sure there at a
resume point is saved with it. -/
namespace ResumableTemplates

open CompileState (Grows)

theorem Typing.set_set (Γ : Typing) (n : Nat) (type type' : Option SlotType) :
    (Γ.set n type).set n type' = Γ.set n type' := by
  funext m
  by_cases h : m = n
  · subst h
    rw [Typing.set_same, Typing.set_same]
  · rw [Typing.set_other _ _ h, Typing.set_other _ _ h, Typing.set_other _ _ h]

theorem Code.Reads.mono {known : String → UInt64 → Prop} {Γ Δ : Typing} {c : Code}
    (h : c.Reads known Γ) (hle : Γ.Le Δ) : c.Reads known Δ := by
  intro d hd
  have := h d hd
  cases d with
  | slot n => exact hle _ _ this
  | element id name m => cases m <;> exact this
  | _ => exact this

theorem Output.Safe.mono {Γ Δ : Typing} {out : Output} (h : out.Safe Γ) (hle : Γ.Le Δ) :
    out.Safe Δ := by
  cases out with
  | sink => trivial
  | buffer n => exact hle _ _ h

theorem ArgSource.Safe.mono {known : String → UInt64 → Prop} {Γ Δ : Typing} {s : ArgSource}
    (h : s.Safe known Γ) (hle : Γ.Le Δ) : s.Safe known Δ := by
  cases s with
  | code c => exact Code.Reads.mono h hle
  | slot n => exact hle _ _ h

structure Plan.Has (K : Plan) (σ : CompileState) : Prop where
  points : ∀ (i : Nat) e, σ.points[i]? = some e → K.points[i]? = some e
  size : σ.scopes.slots.size ≤ K.size

section Ops

variable {K : Plan} {σ τ : CompileState} {Γ : Typing} {op : Op}

theorem Plan.Has.of_grows (h : K.Has τ) (hg : σ.Grows τ) : K.Has σ :=
  ⟨fun i e hi => h.points i e (hg.points i e hi), Nat.le_trans hg.size_le h.size⟩

theorem Op.Fits.pointed {p : Nat} (hΓ : Holds K σ.scopes Γ) (hK : K.Has σ.pointed)
    (hp : σ.position = p) (hpoint : op.point? = some σ.points.size)
    (hsafe : op.Safe K.known K.size Γ) (hwrites : ∀ n ∈ op.writes, K.header ≤ n) :
    op.Fits K p Γ where
  safe := hsafe
  writes := hwrites
  point point hpt := by
    subst hp
    obtain rfl := Option.some.inj (hpoint.symm.trans hpt)
    refine ⟨σ.scopes.live, hK.points _ _ (by simp [CompileState.pointed]), fun n hn => ?_,
      fun n type hn => (hΓ.covers n type hn).imp And.left id⟩
    have := hΓ.sound.live_lt hn
    exact ⟨this.1, Nat.lt_of_lt_of_le this.2 hK.size⟩

theorem Op.Fits.placed {p : Nat} (hpoint : op.point? = none) (hsafe : op.Safe K.known K.size Γ)
    (hwrites : ∀ n ∈ op.writes, K.header ≤ n) : op.Fits K p Γ :=
  ⟨hsafe, hwrites, fun _ hp => (by cases hpoint.symm.trans hp)⟩

theorem Holds.header_le_out (h : Holds K σ.scopes Γ) {out : Output} (hout : out.Safe Γ) (n : Nat)
    (hn : out = .buffer n) : K.header ≤ n := by
  subst hn
  exact h.header_le hout (by simp)

theorem Op.out_of_writes {out : Output} {n : Nat} (hop : (∃ point s, op = .text point out s) ∨
    (∃ point c, op = .print point out c) ∨
      ∃ point callee base args, op = .call point out callee base args)
    (hn : n ∈ op.writes) : out = .buffer n := by
  obtain ⟨point, s, rfl⟩ | ⟨point, c, rfl⟩ | ⟨point, callee, base, args, rfl⟩ := hop
  all_goals
    cases out with
    | sink => cases hn
    | buffer m => rw [List.mem_singleton.1 hn]

end Ops

namespace Fragment

def out : Fragment → Output
  | text out _ | node out _ | block out .. | optional out _ | branches out .. | selection out ..
  | cases out .. | call out .. | children out _ => out
  | args .. => .sink
  | scope f => f.out

def Known (known : String → UInt64 → Prop) : Fragment → Prop
  | text .. => True
  | node _ n => ∀ v ∈ n.visits, v.Known known
  | block _ _ ns | children _ ns => ∀ v ∈ Node.visitsAll ns, v.Known known
  | optional _ o => ∀ b ∈ o, ∀ v ∈ Node.visitsAll b, v.Known known
  | branches _ bs o => (∀ v ∈ Node.visitsBranches bs, v.Known known) ∧
      ∀ b ∈ o, ∀ v ∈ Node.visitsAll b, v.Known known
  | selection _ e cs o => (∀ v ∈ e.visits, v.Known known) ∧
      (∀ v ∈ Node.visitsCases cs, v.Known known) ∧ ∀ b ∈ o, ∀ v ∈ Node.visitsAll b, v.Known known
  | cases _ _ cs o => (∀ v ∈ Node.visitsCases cs, v.Known known) ∧
      ∀ b ∈ o, ∀ v ∈ Node.visitsAll b, v.Known known
  | call _ target data as => (∀ v ∈ target.visits, v.Known known) ∧
      (∀ v ∈ data.visits, v.Known known) ∧ ∀ v ∈ Node.visitsArgs as, v.Known known
  | args as _ => ∀ v ∈ Node.visitsArgs as, v.Known known
  | scope f => f.Known known

def Ready (Γ : Typing) : Fragment → Prop
  | cases out subject .. => out.Safe Γ ∧ Γ subject = some .plain
  | scope f => f.Ready Γ
  | f => f.out.Safe Γ

def IsClosed : Fragment → Prop
  | scope _ | optional .. | branches .. | cases .. => True
  | _ => False

end Fragment

theorem Emits.stack_of_closed {f : Fragment} {σ τ : CompileState} {ops : List Op}
    (h : Emits f σ ops τ) (hf : f.IsClosed) : τ.scopes.stack = σ.scopes.stack := by
  induction h with
  | absent => rfl
  | present h _ => exact h.stack
  | otherwise _ ih | noCase _ ih => exact ih trivial
  | test hc hbody _ _ ih => exact (ih trivial).trans (hbody.stack.trans (by
      rw [← (Expr.compile_same hc).scopes]
      rfl))
  | «case» hc hbody _ _ ih => exact (ih trivial).trans (hbody.stack.trans (by
      rw [← (Compile.IsQuiet.all _ _ _ _ hc).scopes]
      rfl))
  | scope h hstack => exact h.grows.stack hstack
  | _ => exact hf.elim

section Allocation

variable {K : Plan} {σ τ : CompileState} {Γ : Typing} {n : Nat}

theorem Compile.temporary_yields {label : String} (h : (temporary label).Yields σ n τ) :
    σ.scopes.Allocated n ⟨label, .unknown, .synthetic⟩ [] τ.scopes ∧
      τ = { σ with scopes := τ.scopes } := by
  obtain ⟨s, hs, rfl⟩ := yields_onScopes.1 h
  exact ⟨Scopes.temporary_ok hs, rfl⟩

theorem Compile.declare_yields {name : String} {type : VarType}
    (h : (declare name type).Yields σ n τ) :
    σ.scopes.Allocated n ⟨name, type, .bound⟩ [(name, n)] τ.scopes ∧
      τ = { σ with scopes := τ.scopes } := by
  obtain ⟨s, hs, rfl⟩ := yields_onScopes.1 h
  exact ⟨Scopes.declare_ok hs, rfl⟩

theorem Scopes.Allocated.size {s s' : Scopes} {info : SlotInfo} {bound : List (String × Nat)}
    (h : s.Allocated n info bound s') : s'.slots.size = s.slots.size + 1 := by
  rw [h.slots, Array.size_push]

theorem Tied.closed (h : Tied K σ.scopes Γ) (hsound : τ.scopes.Sound K.header)
    (hstack : τ.scopes.stack = σ.scopes.stack) : Tied K τ.scopes Γ := by
  have := h.leave hsound (show τ.scopes.stack = [] ++ σ.scopes.stack from hstack)
  rwa [← hstack] at this

structure LoopSlots (first list cursor item : Nat) (position : Option Nat) (next : Nat) : Prop where
  list_eq : list = first
  cursor_eq : cursor = first + 1
  item_eq : item = first + 2
  position_eq : ∀ n ∈ position, n = first + 3
  room : ∀ n ∈ item :: position.toList, n < next

namespace LoopSlots

variable {first list cursor item next : Nat} {position : Option Nat}

theorem lt_variable (h : LoopSlots first list cursor item position next) {m : Nat}
    (hm : m ∈ item :: position.toList) : first + 1 < m := by
  have := h.item_eq
  cases hm with
  | head => omega
  | tail _ hm =>
    have := h.position_eq m (Option.mem_toList.1 hm)
    omega

theorem le_looping (h : LoopSlots first list cursor item position next)
    (hΓ : ∀ n, first ≤ n → Γ n = none) : Γ.Le (Γ.looping list cursor) := by
  have hlist := h.list_eq
  have hcursor := h.cursor_eq
  refine (Γ.le_set _ (hΓ list (by omega))).trans (Typing.le_set _ ?_)
  rw [Typing.set_other _ _ (by omega)]
  exact hΓ cursor (by omega)

theorem le_round (h : LoopSlots first list cursor item position next)
    (hΓ : ∀ n, first ≤ n → Γ n = none) :
    (Γ.looping list cursor).Le ((Γ.looping list cursor).round item position) := by
  have hlist := h.list_eq
  have hcursor := h.cursor_eq
  have hitem := h.item_eq
  have hloop : ∀ n, cursor < n → Γ.looping list cursor n = none := fun n hn => by
    unfold Typing.looping
    rw [Typing.set_other _ _ (by omega), Typing.set_other _ _ (by omega)]
    exact hΓ n (by omega)
  have hset := Typing.le_set (some .value) (hloop item (by omega))
  cases position with
  | none => exact hset
  | some m =>
    have hm := h.position_eq m rfl
    refine hset.trans (Typing.le_set _ ?_)
    rw [Typing.set_other _ _ (by omega)]
    exact hloop m (by omega)

theorem looping_list (h : LoopSlots first list cursor item position next) (Γ : Typing) :
    Γ.looping list cursor list = some .list := by
  have hlist := h.list_eq
  have hcursor := h.cursor_eq
  unfold Typing.looping
  rw [Typing.set_other _ _ (by omega), Typing.set_same]

theorem fits_next (h : LoopSlots first list cursor item position next) (Γ : Typing) {p : Nat}
    (hheader : K.header ≤ first) (hnext : next ≤ K.size) (exit : Nat) :
    (Op.forNext list cursor item position exit).Fits K p (Γ.looping list cursor) := by
  have hlist := h.list_eq
  have hcursor := h.cursor_eq
  refine .placed rfl ⟨h.looping_list Γ, Typing.set_same _ _ _, by omega, fun m hm => ?_⟩ ?_
  · have := h.lt_variable hm
    have := h.room m hm
    exact ⟨by omega, by omega, by omega⟩
  · intro m hm
    cases hm with
    | head => omega
    | tail _ hm =>
      have := h.lt_variable hm
      omega

end LoopSlots

theorem Node.declareIndex_slots {index : Option String} {m : Option Nat}
    (h : (declareIndex index).Yields σ m τ) : ∀ n ∈ m, n = σ.scopes.slots.size ∧
      n < τ.scopes.slots.size := by
  rintro n rfl
  cases index with
  | none => cases (Compile.yields_pure.1 h).1
  | some name =>
    obtain ⟨k, hk, hnk⟩ := Compile.yields_map.1 h
    obtain rfl := Option.some.inj hnk
    have := (Compile.declare_yields hk).1
    refine ⟨this.slot, ?_⟩
    rw [this.size, this.slot]
    exact Nat.lt_succ_self _

theorem CompileState.Loops.slots {var : String} {index position : Option _} {list cursor item : Nat}
    (h : σ.Loops var index list cursor item position τ) :
    LoopSlots σ.scopes.slots.size list cursor item position τ.scopes.slots.size := by
  obtain ⟨υ, χ, ψ, hlist, hcursor, hitem, hindex⟩ := h.declared
  obtain ⟨alist, -⟩ := Compile.temporary_yields hlist
  obtain ⟨acursor, -⟩ := Compile.temporary_yields hcursor
  obtain ⟨aitem, -⟩ := Compile.declare_yields hitem
  have hslots := Node.declareIndex_slots hindex
  have hle := (Node.declareIndex_grows hindex).1.size_le
  have h₁ := alist.size
  have h₂ := acursor.size
  have h₃ : ψ.scopes.slots.size = χ.scopes.slots.size + 1 := aitem.size
  have hcursor' := acursor.slot
  have hitem' : item = χ.scopes.slots.size := aitem.slot
  refine ⟨alist.slot, by omega, by omega, fun n hn => ?_, fun n hn => ?_⟩
  · have := (hslots n hn).1
    omega
  · cases hn with
    | head => omega
    | tail _ hn => exact (hslots n (Option.mem_toList.1 hn)).2

/-- The slots of a loop, and what is sure of them in a round. Its resume point is made when nothing is
set yet. -/
theorem CompileState.Loops.tied {var : String} {index position : Option _} {list cursor item : Nat}
    (h : σ.Loops var index list cursor item position τ) (hΓ : Tied K σ.scopes Γ) (hK : K.Has τ) :
    LoopSlots σ.scopes.slots.size list cursor item position τ.scopes.slots.size ∧
      Tied K τ.scopes ((Γ.looping list cursor).round item position) ∧
      ∃ χ : CompileState, χ.points = σ.points ∧ χ.position = σ.position ∧ Holds K χ.scopes Γ ∧
        K.Has χ.pointed := by
  obtain ⟨υ, χ, ψ, hlist, hcursor, hitem, hindex⟩ := h.declared
  have hψ : K.Has ψ := hK.of_grows (Node.declareIndex_grows hindex).1
  have hχ : K.Has χ.pointed := hψ.of_grows (Compile.declare_grows hitem).1
  obtain ⟨alist, hυ⟩ := Compile.temporary_yields hlist
  obtain ⟨acursor, hχ'⟩ := Compile.temporary_yields hcursor
  obtain ⟨aitem, -⟩ := Compile.declare_yields hitem
  have hloop : Tied K χ.scopes (Γ.looping list cursor) :=
    (hΓ.temporary alist rfl _).temporary acursor rfl _
  have hround : Tied K ψ.scopes ((Γ.looping list cursor).set item (some .value)) :=
    Tied.declare (s := χ.pointed.scopes) hloop aitem rfl
  refine ⟨h.slots, ?_, χ, by rw [hχ', hυ], by rw [hχ', hυ],
    (hΓ.toHolds.allocated alist rfl).allocated acursor rfl, hχ⟩
  cases index with
  | none =>
    obtain ⟨rfl, rfl⟩ := Compile.yields_pure.1 hindex
    exact hround
  | some name =>
    obtain ⟨m, hm, rfl⟩ := Compile.yields_map.1 hindex
    exact hround.declare (Compile.declare_yields hm).1 rfl

end Allocation

end ResumableTemplates
