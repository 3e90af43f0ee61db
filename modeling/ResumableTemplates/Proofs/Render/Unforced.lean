import ResumableTemplates.Proofs.Render.Schedules
import ResumableTemplates.Proofs.Value.Unforced

/-! What a render makes of values with providers inside. An evaluation forces no more than the value it
comes to, so a provider inside a list or a record is printed, joined and compared unforced, whatever it
yields and whether or not it is ready. -/
namespace ResumableTemplates

open Render (Ensures)

namespace Value

def IsForced (v : Value) : Prop := ∀ i u, v ≠ lazy i u

theorem isForced_forced (v : Value) : v.forced.IsForced := by
  induction v using forced.induct with
  | case1 i v ih => exact ih
  | case2 v h =>
    cases v with
    | lazy i v => exact absurd rfl (h i v)
    | _ => exact fun i u hu => by cases hu

theorem IsForced.of_isAtom {v : Value} (h : v.isAtom) : v.IsForced := by
  rintro i u rfl
  cases h

end Value

namespace Render

variable {env : Env}

theorem force_ensures (env : Env) (v : Value) : Ensures (· = v.forced) (force env v) := by
  induction v using Value.forced.induct with
  | case1 i v ih =>
    rw [force]
    refine .andThen fun isReady => ?_
    cases isReady with
    | true => exact ih
    | false => exact .stop
  | case2 v h =>
    cases v with
    | lazy i v => exact absurd rfl (h i v)
    | _ => exact .pure rfl

theorem forced_ensures (r : Render Value) : Ensures Value.IsForced (forced env r) :=
  .andThen fun v _ hu => force_ensures env v hu ▸ v.isForced_forced

theorem forced_eq {r : Render Value} (h : Ensures Value.IsForced r) : forced env r = r := by
  funext s
  rw [forced, bind_apply]
  cases hr : r s with
  | mk x t =>
    cases x with
    | error e => rfl
    | ok v =>
      have hv := h ⟨s, t, hr⟩
      cases v with
      | lazy i u => exact absurd rfl (hv i u)
      | _ => rfl

end Render

/-- Holds of an activation that makes texts of values with each provider inside them marked, and compares
values with nothing behind the providers inside them. -/
structure Activation.Overlooks (env : Env) (a : Activation) : Prop where
  forced : ∀ c, Ensures Value.IsForced (Code.eval env a c)
  slot : ∀ n v, a.variable n = .ok v → Ensures (· = v.forced) (Code.eval env a (.slot n))
  print : ∀ position point out c, a.plan env position (.print point out c) = do
    a.emit out (← c.eval env a).masked.display (position + 1)
  str : ∀ c, Code.eval env a (.builtin .str [c]) = do
    return .str (← c.eval env a).masked.display
  join : ∀ c d, Code.eval env a (.binary .add c d) = do
    let x ← c.eval env a
    Render.ofData (x.masked.add (← d.eval env a).masked)
  variant : ∀ c, a.variantText env (some c) = do
    return variantOf (← c.eval env a).masked
  eq : ∀ c d, Code.eval env a (.binary .eq c d) = do
    let x ← c.eval env a
    return .bool (x.veiled.looseEq (← d.eval env a).veiled)
  ne : ∀ c d, Code.eval env a (.binary .ne c d) = do
    let x ← c.eval env a
    return .bool !(x.veiled.looseEq (← d.eval env a).veiled)
  case : ∀ v c cs, a.matchesAny env v (c :: cs) = do
    if v.veiled.looseEq (← c.eval env a).veiled then return true else a.matchesAny env v cs

theorem Activation.variantOf_masked (v : Value) : variantOf v.masked = variantOf v := by
  cases v with
  | list vs => exact Value.display_masked (.list vs)
  | record fs => exact Value.display_masked (.record fs)
  | _ => rfl

theorem Code.eval_binary {env : Env} {a : Activation} {c d : Code} (op : BinaryOp)
    (hop : ∀ v, op.decidedBy? v = none)
    (hatom : ∀ v u w, Value.binary op v u = .ok w → w.IsForced) :
    eval env a (.binary op c d) = (do
      let x ← c.eval env a
      Render.ofData (Value.binary op x (← d.eval env a))) := by
  rw [eval, Render.forced_eq] <;> rw [read] <;> simp only [hop]
  · rfl
  · exact .andThen fun x => .andThen fun y => .ofData fun w => hatom x y w

theorem Activation.overlooks (env : Env) (a : Activation) : a.Overlooks env where
  forced c := Render.forced_ensures _
  slot n v hv := by
    rw [Code.eval, Code.read, hv]
    exact Render.force_ensures env v
  print position point out c := by
    simp only [plan, Value.display_masked]
  str c := by
    rw [Code.eval, Render.forced_eq] <;> rw [Code.read, Code.readAll, Code.readAll]
    · simp only [Value.apply, Value.display_masked, bind_assoc, pure_bind]
      rfl
    · exact .andThen fun vs => .ofData fun w hw => .of_isAtom (Value.isAtom_of_apply hw)
  join c d := by
    rw [Code.eval_binary .add (fun _ => rfl) fun v u w hw => .of_isAtom (Value.isAtom_of_add hw)]
    simp only [Value.binary, Value.add_masked]
  variant c := by
    simp only [variantText, variantOf_masked]
  eq c d := by
    rw [Code.eval_binary .eq (fun _ => rfl) fun v u w hw => .of_isAtom (by cases hw; rfl)]
    simp only [Value.binary, Value.looseEq_veiled]
    rfl
  ne c d := by
    rw [Code.eval_binary .ne (fun _ => rfl) fun v u w hw => .of_isAtom (by cases hw; rfl)]
    simp only [Value.binary, Value.looseEq_veiled]
    rfl
  case v c cs := by
    simp only [matchesAny, Value.looseEq_veiled]

/-- No activation sees more of the providers inside a value than that they are there: it writes a mark for
each. A list with a provider in it equals nothing, and a field that is a provider equals only the same
provider. -/
theorem Activation.overlooks_nested : (∀ env a, Overlooks env a) ∧
    (∀ vs i v u, .lazy i v ∈ vs →
      (Value.list vs).looseEq u = false ∧ u.looseEq (.list vs) = false) ∧
    ∀ fs gs, (Value.record fs).looseEq (.record gs) = true → ∀ k i,
      (∃ v, Record.field? fs k = some (.lazy i v)) ↔ ∃ v, Record.field? gs k = some (.lazy i v) := by
  refine ⟨overlooks, fun vs i v u h => ?_, fun fs gs h k i => ?_⟩
  · cases u with
    | list us =>
      simp only [Value.looseEq]
      exact Value.looseEqAll_of_lazy_mem h
    | _ => simp only [Value.looseEq, and_self]
  · rw [Value.looseEq] at h
    exact Value.field?_of_strictEqFields h k i

/-- A letter to a list of one name shows the name, but not if a provider has it, though it be ready. -/
theorem Activation.overlooks_nested_letter :
    let fast : Schedule := ⟨fun _ _ => true, .buffer ""⟩
    let letter (name : Value) := fast.drive (.plain .letter 1) (.compiled 0 "letter") [("name", name)] 0
      (.initial (.buffer ""))
    (letter (.list [.lazy 0 (.str "Ada")])).1.toOption.join = some 0 ∧
      (letter (.list [.lazy 0 (.str "Ada")])).2.chunks = ["dear ", "[<pending>]"] ∧
      (letter (.list [.str "Ada"])).1.toOption.join = some 0 ∧
      (letter (.list [.str "Ada"])).2.chunks = ["dear ", "[Ada]"] := by
  decide +kernel

end ResumableTemplates
