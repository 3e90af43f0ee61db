import ResumableTemplates.Proofs.Compile.Folding
import Mathlib.Algebra.Group.Int.Defs

/-! Integer arithmetic. An operator that takes both its operands comes to one answer on them, in folding
as in rendering: what folding leaves open is the same error in the code that it leaves. Main statement:
sums, differences, products and opposites of 64-bit integers are exact, or an overflow where the exact
result is no such integer; so is a remainder, where there is a quotient. -/
namespace ResumableTemplates

def Fits (z : Int) : Prop := -2 ^ 63 ≤ z ∧ z < 2 ^ 63

/-- Holds of an answer that is the exact result of an operator, or its overflow if 64 bits cannot hold
that. -/
inductive Exactly (op : String) (z : Int) : Except DataError Value → Prop
  | fits {n : Int64} : n.toInt = z → Exactly op z (.ok (.int n))
  | overflows : ¬ Fits z → Exactly op z (.error (.overflow op))

/-- The answers of the arithmetic operators on two integers. -/
inductive BinaryOp.Answers (a b : Int64) : BinaryOp → Except DataError Value → Prop
  | add : Exactly BinaryOp.add.symbol (a.toInt + b.toInt) x → Answers a b .add x
  | sub : Exactly BinaryOp.sub.symbol (a.toInt - b.toInt) x → Answers a b .sub x
  | mul : Exactly BinaryOp.mul.symbol (a.toInt * b.toInt) x → Answers a b .mul x
  | mod {n : Int64} : b ≠ 0 → ¬ (a = Int64.minValue ∧ b = -1) → n.toInt = a.toInt.tmod b.toInt →
      Answers a b .mod (.ok (.int n))
  | quotient : a = Int64.minValue → b = -1 →
      Answers a b .mod (.error (.overflow BinaryOp.mod.symbol))
  | zero : b = 0 → Answers a b .mod (.error .moduloByZero)

structure BinaryOp.Computes (op : BinaryOp) (v w : Value) (x : Except DataError Value) : Prop where
  applies : Value.binary op v w = x
  folds : ∀ l r : Expr, l.fold? = some v → r.fold? = some w →
    (Expr.binary op l r).fold? = x.toOption
  compiles : ∀ l r : Expr, l.fold? = some v → r.fold? = some w → ∀ σ, ∃ c,
    (Expr.binary op l r).compile.Yields σ c σ ∧ ∀ env a, c.eval env a = Render.ofData x
  renders : ∀ env a (l r : Code) s t u, l.eval env a s = (.ok v, t) → r.eval env a t = (.ok w, u) →
    (Code.binary op l r).eval env a s = (Render.ofData x : Render Value) u

structure UnaryOp.Computes (op : UnaryOp) (v : Value) (x : Except DataError Value) : Prop where
  applies : Value.unary op v = x
  folds : ∀ e : Expr, e.fold? = some v → (Expr.unary op e).fold? = x.toOption
  compiles : ∀ e : Expr, e.fold? = some v → ∀ σ, ∃ c,
    (Expr.unary op e).compile.Yields σ c σ ∧ ∀ env a, c.eval env a = Render.ofData x
  renders : ∀ env a (c : Code) s t, c.eval env a s = (.ok v, t) →
    (Code.unary op c).eval env a s = (Render.ofData x : Render Value) t

section Operators

open Compile

variable {v w : Value} {x : Except DataError Value} {e : Expr} {σ : CompileState}

theorem Expr.fold?_eq_some : e.fold? = some v ↔ e.isConstant = true ∧ e.constantValue? = some v := by
  unfold fold?
  split
  · rename_i he
    simp [he]
  · rename_i he
    simp [he]

theorem Expr.compile_of_fold? (he : e.fold? = some v) : e.compile.Yields σ (.const v) σ := by
  unfold compile
  rw [he]
  exact yields_pure.2 ⟨rfl, rfl⟩

theorem Code.eval_const (hv : v.IsPlain) (env : Env) (a : Activation) :
    (Code.const v).eval env a = pure v := by
  rw [eval, read, Render.forced_pure hv]

theorem Expr.eval_const_of_fold? (he : e.fold? = some v) (env : Env) (a : Activation)
    (s : RenderState) : (Code.const v).eval env a s = (.ok v, s) := by
  rw [Code.eval_const (constantValue?_isPlain (fold?_eq_some.1 he).2)]
  rfl

theorem Render.bind_of_ok {r : Render α} {f : α → Render β} {a : α} {s t : RenderState}
    (h : r s = (.ok a, t)) : (r >>= f) s = f a t := by
  rw [bind_apply, h]

theorem Render.forced_ofData (env : Env) (hx : ∀ y, x = .ok y → y.IsPlain) :
    Render.forced env (Render.ofData x) = (Render.ofData x : Render Value) := by
  cases x with
  | error e => exact Render.forced_fail env (.data e)
  | ok y => exact Render.forced_pure (hx y rfl)

theorem Code.eval_binary_forced {op : BinaryOp} (hop : ∀ v, op.decidedBy? v = none) (env : Env)
    (a : Activation) (l r : Code) : (Code.binary op l r).eval env a = l.eval env a >>= fun y =>
      r.eval env a >>= fun z => Render.forced env (Render.ofData (Value.binary op y z)) := by
  simp only [eval, Render.forced, read, hop, bind_assoc]

theorem Code.eval_unary_forced (op : UnaryOp) (env : Env) (a : Activation) (c : Code) :
    (Code.unary op c).eval env a = c.eval env a >>= fun y =>
      Render.forced env (Render.ofData (Value.unary op y)) := by
  simp only [eval, Render.forced, read, bind_assoc]

theorem BinaryOp.computes {op : BinaryOp} (hop : ∀ v, op.decidedBy? v = none)
    (hx : Value.binary op v w = x) (hplain : ∀ y, x = .ok y → y.IsPlain) : op.Computes v w x := by
  have hfolds : ∀ l r : Expr, l.fold? = some v → r.fold? = some w →
      (Expr.binary op l r).fold? = x.toOption := by
    intro l r hl hr
    rw [Expr.fold?_eq_some] at hl hr
    simp [Expr.fold?, Expr.isConstant, Expr.constantValue?, hl, hr, hop, hx]
  have hrenders : ∀ env a (l r : Code) s t u, l.eval env a s = (.ok v, t) →
      r.eval env a t = (.ok w, u) →
      (Code.binary op l r).eval env a s = (Render.ofData x : Render Value) u := by
    intro env a l r s t u hl hr
    rw [Code.eval_binary_forced hop, Render.bind_of_ok hl, Render.bind_of_ok hr, hx,
      Render.forced_ofData env hplain]
  refine ⟨hx, hfolds, fun l r hl hr σ => ?_, hrenders⟩
  have hfold := hfolds l r hl hr
  cases hy : x with
  | ok y =>
    rw [hy] at hfold
    exact ⟨.const y, Expr.compile_of_fold? hfold, Code.eval_const (hplain y hy)⟩
  | error e =>
    rw [hy] at hfold
    refine ⟨.binary op (.const v) (.const w), ?_, fun env a => ?_⟩
    · unfold Expr.compile
      rw [hfold]
      exact yields_bind.2 ⟨_, _, Expr.compile_of_fold? hl,
        yields_bind.2 ⟨_, _, Expr.compile_of_fold? hr, yields_pure.2 ⟨rfl, rfl⟩⟩⟩
    · funext s
      rw [hrenders env a _ _ s s s (Expr.eval_const_of_fold? hl env a s)
        (Expr.eval_const_of_fold? hr env a s), hy]

theorem UnaryOp.computes {op : UnaryOp} (hx : Value.unary op v = x)
    (hplain : ∀ y, x = .ok y → y.IsPlain) : op.Computes v x := by
  have hfolds : ∀ e : Expr, e.fold? = some v → (Expr.unary op e).fold? = x.toOption := by
    intro e he
    rw [Expr.fold?_eq_some] at he
    simp [Expr.fold?, Expr.isConstant, Expr.constantValue?, he, hx]
  have hrenders : ∀ env a (c : Code) s t, c.eval env a s = (.ok v, t) →
      (Code.unary op c).eval env a s = (Render.ofData x : Render Value) t := by
    intro env a c s t hc
    rw [Code.eval_unary_forced, Render.bind_of_ok hc, hx, Render.forced_ofData env hplain]
  refine ⟨hx, hfolds, fun e he σ => ?_, hrenders⟩
  have hfold := hfolds e he
  cases hy : x with
  | ok y =>
    rw [hy] at hfold
    exact ⟨.const y, Expr.compile_of_fold? hfold, Code.eval_const (hplain y hy)⟩
  | error d =>
    rw [hy] at hfold
    refine ⟨.unary op (.const v), ?_, fun env a => ?_⟩
    · unfold Expr.compile
      rw [hfold]
      exact yields_bind.2 ⟨_, _, Expr.compile_of_fold? he, yields_pure.2 ⟨rfl, rfl⟩⟩
    · funext s
      rw [hrenders env a _ s s (Expr.eval_const_of_fold? he env a s), hy]

end Operators

section Integers

variable {a b : Int64} {z : Int} {x : Except DataError Value}

theorem fits_toInt (a : Int64) : Fits a.toInt := ⟨a.le_toInt, a.toInt_lt⟩

theorem int64Of?_of_fits (hz : Fits z) : int64Of? z = some (Int64.ofInt z) := by
  rw [int64Of?, if_pos]
  rw [Int64.toInt_minValue, Int64.toInt_maxValue]
  exact ⟨hz.1, Int.le_sub_one_of_lt hz.2⟩

theorem int64Of?_of_not_fits (hz : ¬ Fits z) : int64Of? z = none := by
  rw [int64Of?, if_neg]
  rw [Int64.toInt_minValue, Int64.toInt_maxValue]
  exact fun h => hz ⟨h.1, Int.lt_of_le_sub_one h.2⟩

theorem Exactly.ofExact (op : String) (z : Int) : Exactly op z (Value.ofExact op z) := by
  unfold Value.ofExact
  by_cases hz : Fits z
  · rw [int64Of?_of_fits hz]
    exact .fits (Int64.toInt_ofInt_of_le hz.1 hz.2)
  · rw [int64Of?_of_not_fits hz]
    exact .overflows hz

theorem Exactly.isPlain {op : String} (hx : Exactly op z x) (y : Value) (hy : x = .ok y) :
    y.IsPlain := by
  cases hx with
  | fits => cases hy; trivial
  | overflows => cases hy

theorem BinaryOp.Answers.isPlain {op : BinaryOp} (hx : op.Answers a b x) (y : Value)
    (hy : x = .ok y) : y.IsPlain := by
  cases hx with
  | add hx | sub hx | mul hx => exact hx.isPlain y hy
  | mod => cases hy; trivial
  | quotient | zero => cases hy

theorem fits_tdiv (hquot : ¬ (a = Int64.minValue ∧ b = -1)) : Fits (a.toInt.tdiv b.toInt) := by
  have hle : (a.toInt.tdiv b.toInt).natAbs ≤ a.toInt.natAbs := Int.natAbs_tdiv_le_natAbs _ _
  have ha := fits_toInt a
  apply Classical.byContradiction
  intro hfits
  have hdividend : a.toInt = -2 ^ 63 := by
    unfold Fits at ha hfits
    omega
  have hquotient : a.toInt.tdiv b.toInt = 2 ^ 63 := by
    unfold Fits at ha hfits
    omega
  have hdiv : a.toInt.natAbs / b.toInt.natAbs = a.toInt.natAbs := by
    apply (Int.natAbs_tdiv _ _).symm.trans
    rw [hquotient, hdividend]
    rfl
  have hunit : b.toInt.natAbs = 1 := by
    obtain hzero | hunit := Nat.div_eq_self.1 hdiv
    · rw [hdividend] at hzero
      cases hzero
    · exact hunit
  obtain hone | hone := Int.natAbs_eq_iff.1 hunit
  · rw [hone, hdividend] at hquotient
    cases hquotient
  · exact hquot ⟨Int64.toInt_inj.1 hdividend, Int64.toInt_inj.1 hone⟩

theorem fits_tmod (hb : b ≠ 0) : Fits (a.toInt.tmod b.toInt) := by
  have hpos : b.toInt.natAbs ≠ 0 := fun h => hb (Int64.toInt_inj.1 (Int.natAbs_eq_zero.1 h))
  have hlt : (a.toInt.tmod b.toInt).natAbs < b.toInt.natAbs := by
    rw [Int.natAbs_tmod]
    exact Nat.mod_lt _ (Nat.pos_of_ne_zero hpos)
  have hb := fits_toInt b
  unfold Fits at hb ⊢
  omega

theorem BinaryOp.answers {op : BinaryOp} (hop : op ∈ [BinaryOp.add, .sub, .mul, .mod]) (a b : Int64) :
    op.Answers a b (Value.binary op (.int a) (.int b)) := by
  obtain rfl | rfl | rfl | rfl : op = .add ∨ op = .sub ∨ op = .mul ∨ op = .mod := by simpa using hop
  · exact .add (.ofExact _ _)
  · exact .sub (.ofExact _ _)
  · exact .mul (.ofExact _ _)
  · rw [Value.binary, Value.modulo]
    by_cases hb : b = 0
    · rw [if_pos hb]
      exact .zero hb
    · rw [if_neg hb]
      by_cases hquot : a = Int64.minValue ∧ b = -1
      · obtain ⟨rfl, rfl⟩ := hquot
        exact .quotient rfl rfl
      · have hrem := Exactly.ofExact BinaryOp.mod.symbol (a.toInt.tmod b.toInt)
        rw [int64Of?_of_fits (fits_tdiv hquot)]
        dsimp only
        generalize Value.ofExact BinaryOp.mod.symbol (a.toInt.tmod b.toInt) = x at hrem
        cases hrem with
        | fits hn => exact .mod hb hquot hn
        | overflows hnot => exact absurd (fits_tmod hb) hnot

/-- Integer arithmetic is exact, or says that it cannot be. -/
theorem integers_exact :
    (∀ op ∈ [BinaryOp.add, .sub, .mul, .mod], ∀ a b : Int64, ∃ x,
      op.Answers a b x ∧ op.Computes (.int a) (.int b) x) ∧
    ∀ a : Int64, ∃ x, Exactly UnaryOp.neg.symbol (-a.toInt) x ∧ UnaryOp.neg.Computes (.int a) x := by
  constructor
  · intro op hop a b
    have hx := BinaryOp.answers hop a b
    have hboth : ∀ v, op.decidedBy? v = none := by
      obtain rfl | rfl | rfl | rfl : op = .add ∨ op = .sub ∨ op = .mul ∨ op = .mod := by
        simpa using hop
      all_goals exact fun _ => rfl
    exact ⟨_, hx, BinaryOp.computes hboth rfl hx.isPlain⟩
  · intro a
    have hx := Exactly.ofExact UnaryOp.neg.symbol (-a.toInt)
    exact ⟨_, hx, UnaryOp.computes rfl hx.isPlain⟩

/-- Twice the greatest integer is an overflow, which the code that is compiled for it ends in. -/
theorem integers_exact_twice : ∃ c,
    (Expr.binary .mul (.literal (.int Int64.maxValue)) (.literal (.int 2))).compile.Yields
      (.of (.empty "page")) c (.of (.empty "page")) ∧
    ∀ env a s, c.eval env a s = (.error (.failure (.data (.overflow "*"))), s) := by
  obtain ⟨x, hx, hc⟩ := integers_exact.1 .mul (by decide) Int64.maxValue 2
  cases hx with
  | mul hx =>
    cases hx with
    | fits hn => exact absurd (hn ▸ fits_toInt _) (by unfold Fits; decide)
    | overflows hnot =>
      obtain ⟨c, hyields, heval⟩ := hc.compiles (.literal (.int Int64.maxValue)) (.literal (.int 2))
        rfl rfl (.of (.empty "page"))
      exact ⟨c, hyields, fun env a s => by rw [heval]; rfl⟩

/-- The remainder of the least integer by minus one is zero, but there is no quotient. -/
theorem remainder_inexact : ¬ ∀ a b : Int64, b ≠ 0 → ∃ x,
    Exactly BinaryOp.mod.symbol (a.toInt.tmod b.toInt) x ∧
      BinaryOp.mod.Computes (.int a) (.int b) x := by
  intro h
  obtain ⟨x, hx, hc⟩ := h Int64.minValue (-1) (by decide)
  have hfold : none = x.toOption :=
    hc.folds (.literal (.int Int64.minValue)) (.literal (.int (-1))) rfl rfl
  cases hx with
  | fits => cases hfold
  | overflows hnot => exact hnot (by unfold Fits; decide)

end Integers

end ResumableTemplates
