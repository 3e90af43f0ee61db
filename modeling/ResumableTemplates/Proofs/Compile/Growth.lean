import ResumableTemplates.Proofs.Compile.Emits

/-! What every compilation of a body keeps: slots and resume points stay as they are once they are
there, and only the innermost scope changes. -/
namespace ResumableTemplates

namespace CompileState

structure Grows (σ τ : CompileState) : Prop where
  points : ∀ (i : Nat) e, σ.points[i]? = some e → τ.points[i]? = some e
  slots : ∀ (i : Nat) info, σ.scopes.slots[i]? = some info → τ.scopes.slots[i]? = some info
  outer : τ.scopes.stack.tail = σ.scopes.stack.tail

variable {σ τ υ : CompileState}

theorem Grows.refl : σ.Grows σ := ⟨fun _ _ h => h, fun _ _ h => h, rfl⟩

theorem Grows.trans (h : σ.Grows τ) (h' : τ.Grows υ) : σ.Grows υ :=
  ⟨fun i e hi => h'.points i e (h.points i e hi), fun i e hi => h'.slots i e (h.slots i e hi),
    h'.outer.trans h.outer⟩

theorem Grows.size_le (h : σ.Grows τ) : σ.scopes.slots.size ≤ τ.scopes.slots.size := by
  refine Nat.le_of_not_lt fun hlt => ?_
  have := h.slots _ _ (Array.getElem?_eq_getElem hlt)
  rw [Array.getElem?_eq_none (Nat.le_refl _)] at this
  cases this

theorem Grows.of_same (h : σ.Same τ) : σ.Grows τ :=
  ⟨fun i e hi => by rwa [h.points], fun i e hi => by rwa [h.scopes], by rw [h.scopes]⟩

theorem Grows.placed : σ.Grows σ.placed := ⟨fun _ _ h => h, fun _ _ h => h, rfl⟩

theorem Grows.pointed : σ.Grows σ.pointed where
  points i e hi := by
    have hlt := (Array.getElem?_eq_some_iff.1 hi).1
    simp only [CompileState.pointed, Array.getElem?_push, if_neg (Nat.ne_of_lt hlt), hi]
  slots _ _ hi := hi
  outer := rfl

theorem Grows.allocated {n : Nat} {info : SlotInfo} {bound : List (String × Nat)} {s : Scopes}
    (h : σ.scopes.Allocated n info bound s) : σ.Grows { σ with scopes := s } where
  points _ _ hi := hi
  slots i e hi := by
    have hlt := (Array.getElem?_eq_some_iff.1 hi).1
    simp only [h.slots, Array.getElem?_push, if_neg (Nat.ne_of_lt hlt), hi]
  outer := by
    obtain ⟨top, rest, hs, hs'⟩ := h.stack
    rw [hs, hs']
    rfl

theorem Grows.stack (h : σ.entered.Grows τ) {top : Scope} {rest : List Scope}
    (hstack : τ.scopes.stack = top :: rest) : rest = σ.scopes.stack := by
  have := h.outer
  rwa [hstack] at this

theorem Grows.left (h : σ.entered.Grows τ) : σ.Grows (τ.left σ.scopes.stack) :=
  ⟨h.points, h.slots, rfl⟩

end CompileState

open CompileState

section Yields

variable {σ τ : CompileState} {n : Nat}

theorem Compile.temporary_grows {label : String} (h : (temporary label).Yields σ n τ) :
    σ.Grows τ ∧ τ.position = σ.position ∧ τ.points = σ.points := by
  obtain ⟨s, hs, rfl⟩ := yields_onScopes.1 h
  exact ⟨.allocated (Scopes.temporary_ok hs), rfl, rfl⟩

theorem Compile.declare_grows {name : String} {type : VarType} (h : (declare name type).Yields σ n τ) :
    σ.Grows τ ∧ τ.position = σ.position ∧ τ.points = σ.points := by
  obtain ⟨s, hs, rfl⟩ := yields_onScopes.1 h
  exact ⟨.allocated (Scopes.declare_ok hs), rfl, rfl⟩

theorem Node.declareIndex_grows {index : Option String} {m : Option Nat}
    (h : (declareIndex index).Yields σ m τ) : σ.Grows τ ∧ τ.position = σ.position := by
  cases index with
  | none =>
    obtain ⟨-, rfl⟩ := Compile.yields_pure.1 h
    exact ⟨.refl, rfl⟩
  | some name =>
    obtain ⟨n, hn, -⟩ := Compile.yields_map.1 h
    have := Compile.declare_grows hn
    exact ⟨this.1, this.2.1⟩

theorem Expr.compile_same {e : Expr} {c : Code} (h : e.compile.Yields σ c τ) : σ.Same τ :=
  Compile.IsQuiet.expr e _ _ _ h

variable {var : String} {index position : Option _} {list cursor item : Nat}

theorem CompileState.Loops.grows (h : σ.Loops var index list cursor item position τ) :
    σ.Grows τ ∧ τ.position = σ.position + 1 := by
  obtain ⟨υ, χ, ψ, hlist, hcursor, hitem, hindex⟩ := h.declared
  obtain ⟨h₁, p₁, -⟩ := Compile.temporary_grows hlist
  obtain ⟨h₂, p₂, -⟩ := Compile.temporary_grows hcursor
  obtain ⟨h₃, p₃, -⟩ := Compile.declare_grows hitem
  obtain ⟨h₄, p₄⟩ := Node.declareIndex_grows hindex
  refine ⟨h₁.trans (h₂.trans (Grows.pointed.trans (h₃.trans h₄))), ?_⟩
  rw [p₄, p₃]
  change χ.position + 1 = _
  rw [p₂, p₁]

end Yields

variable {f : Fragment} {σ τ : CompileState} {ops : List Op}

theorem Emits.grows (h : Emits f σ ops τ) : σ.Grows τ := by
  induction h with
  | noText | absent | noArgs | noChildren => exact .refl
  | text => exact .pointed
  | raw _ ih | branch _ ih | switch _ ih | invoke _ ih | done _ ih | join _ ih | present _ ih
  | otherwise _ ih | noCase _ ih => exact ih
  | print hc => exact (Grows.of_same (Expr.compile_same hc)).trans .pointed
  | each hc hpre _ hstack ih =>
    have h := hpre.grows.1.trans (Grows.placed.trans (ih.trans .placed))
    obtain rfl := h.stack hstack
    exact (Grows.of_same (Expr.compile_same hc)).trans h.left
  | eachElse hc hpre _ hstack _ ih ih' =>
    have h := hpre.grows.1.trans (Grows.placed.trans (ih.trans .placed))
    obtain rfl := h.stack hstack
    exact (Grows.of_same (Expr.compile_same hc)).trans (h.left.trans (Grows.placed.trans ih'))
  | bind hc hslot =>
    exact (Grows.of_same (Expr.compile_same hc)).trans
      ((Compile.declare_grows hslot).1.trans .pointed)
  | capture hbuffer _ hdest ih =>
    exact (Compile.temporary_grows hbuffer).1.trans (Grows.placed.trans (ih.trans
      ((Compile.declare_grows hdest).1.trans .placed)))
  | tag _ _ _ ih ih' ih'' | cons _ _ _ ih ih' ih'' => exact ih.trans (ih'.trans ih'')
  | test hc _ _ ih ih' =>
    exact (Grows.of_same (Expr.compile_same hc)).trans
      (Grows.pointed.trans (ih.trans (Grows.placed.trans ih')))
  | selection hc hsubject _ ih =>
    exact (Grows.of_same (Expr.compile_same hc)).trans
      ((Compile.temporary_grows hsubject).1.trans (Grows.pointed.trans ih))
  | «case» hvalues _ _ ih ih' =>
    exact (Grows.of_same (Compile.IsQuiet.all _ _ _ _ hvalues)).trans
      (Grows.pointed.trans (ih.trans (Grows.placed.trans ih')))
  | call _ hbase hcallee ih =>
    exact ih.trans ((Grows.of_same (Compile.IsQuiet.paramsBase _ _ _ _ hbase)).trans
      ((Grows.of_same (Compile.IsQuiet.callee _ _ _ _ hcallee)).trans .pointed))
  | value hc _ ih | keyed hc _ ih => exact (Grows.of_same (Expr.compile_same hc)).trans ih
  | content hbuffer _ _ ih ih' =>
    exact (Compile.temporary_grows hbuffer).1.trans
      (Grows.placed.trans (ih.trans (Grows.placed.trans ih')))
  | child _ _ ih ih' => exact ih.trans ih'
  | scope _ hstack ih =>
    obtain rfl := ih.stack hstack
    exact ih.left

theorem Emits.position (h : Emits f σ ops τ) : τ.position = σ.position + ops.length := by
  induction h with
  | noText | absent | noArgs | noChildren => rfl
  | text => rfl
  | raw _ ih | branch _ ih | switch _ ih | invoke _ ih | done _ ih | join _ ih | present _ ih
  | otherwise _ ih | noCase _ ih | scope _ _ ih => exact ih
  | print hc => exact congrArg (· + 1) (Expr.compile_same hc).position
  | each hc hpre _ _ ih =>
    have := (Expr.compile_same hc).position
    have := hpre.grows.2
    simp only [CompileState.left, CompileState.placed, CompileState.entered, List.length_cons,
      List.length_append, List.length_nil] at *
    omega
  | eachElse hc hpre _ _ _ ih ih' =>
    have := (Expr.compile_same hc).position
    have := hpre.grows.2
    simp only [CompileState.left, CompileState.placed, CompileState.entered, List.length_cons,
      List.length_append] at *
    omega
  | bind hc hslot =>
    have := (Expr.compile_same hc).position
    have := (Compile.declare_grows hslot).2.1
    simp only [CompileState.pointed, List.length_cons, List.length_nil]
    omega
  | capture hbuffer _ hdest ih =>
    have := (Compile.temporary_grows hbuffer).2.1
    have := (Compile.declare_grows hdest).2.1
    simp only [CompileState.placed, List.length_cons, List.length_append, List.length_nil] at *
    omega
  | tag _ _ _ ih ih' ih'' | cons _ _ _ ih ih' ih'' =>
    simp only [List.length_append]
    omega
  | test hc _ _ ih ih' =>
    have := (Expr.compile_same hc).position
    simp only [CompileState.placed, CompileState.pointed, List.length_cons, List.length_append] at *
    omega
  | selection hc hsubject _ ih =>
    have := (Expr.compile_same hc).position
    have := (Compile.temporary_grows hsubject).2.1
    simp only [CompileState.pointed, List.length_cons] at *
    omega
  | «case» hvalues _ _ ih ih' =>
    have := (Compile.IsQuiet.all _ _ _ _ hvalues).position
    simp only [CompileState.placed, CompileState.pointed, List.length_cons, List.length_append] at *
    omega
  | call _ hbase hcallee ih =>
    have := (Compile.IsQuiet.paramsBase _ _ _ _ hbase).position
    have := (Compile.IsQuiet.callee _ _ _ _ hcallee).position
    simp only [CompileState.pointed, List.length_append, List.length_cons, List.length_nil] at *
    omega
  | value hc _ ih | keyed hc _ ih => rw [ih, (Expr.compile_same hc).position]
  | content hbuffer _ _ ih ih' =>
    have := (Compile.temporary_grows hbuffer).2.1
    simp only [CompileState.placed, List.length_cons, List.length_append] at *
    omega
  | child _ _ ih ih' =>
    simp only [List.length_append]
    omega

theorem Emits.stack (h : Emits (.scope f) σ ops τ) : τ.scopes.stack = σ.scopes.stack := by
  cases h with
  | scope h hstack => exact h.grows.stack hstack

end ResumableTemplates
