import ResumableTemplates.Proofs.Compile.Origins
import ResumableTemplates.Proofs.Meaning.Interpreter

/-! Compiled expressions mean what their source does. A variable in scope is in the slot that it is
compiled to, and a constant is what its expression comes to wherever it stands. -/
namespace ResumableTemplates

def VarRef.kind : VarRef → SlotKind
  | param _ => .param
  | state _ => .state
  | bound _ => .bound
  | injected _ => .injected

theorem Param.ref_name (p : Param) : p.ref.name = p.name := by
  unfold Param.ref
  split <;> rfl

theorem Param.ref_kind (p : Param) : p.ref.kind = p.slotKind := by
  unfold Param.ref Param.slotKind
  split <;> rfl

/-- Holds if the variables in scope are those that have a name, and their slots have the same values.
-/
def Scopes.Matches (s : Scopes) (ρ : Names) (locals : Array Local) : Prop :=
  ∀ v : VarRef, (s.lookupKind? v.name v.kind).map (fun n => locals[n]?) =
    (ρ.vars.lookup v).map fun u => some (.value u)

/-- Holds of a world in which sites find what names stand for in the sources. -/
structure Sources.Fits (S : Sources) (w : World) : Prop where
  library : w.library = S.library
  lookup : w.lookup = S.lookup
  maxDepth : w.maxDepth = S.maxDepth
  injected : w.injected = S.injected
  template : ∀ unit template i name, w.template unit template i name = S.find unit name
  element : ∀ unit template i table id,
    w.element unit template i table id = S.describe unit template table id

namespace Scopes.Matches

variable {s : Scopes} {ρ : Names} {locals : Array Local} (h : s.Matches ρ locals)

include h

theorem lookup_some {v : VarRef} {n : Nat} (hn : s.lookupKind? v.name v.kind = some n) :
    ∃ u, ρ.vars.lookup v = some u ∧ locals[n]? = some (.value u) := by
  have hv := h v
  rw [hn, Option.map_some] at hv
  obtain ⟨u, hu, hl⟩ := Option.map_eq_some_iff.1 hv.symm
  exact ⟨u, hu, hl.symm⟩

theorem lookup_none {v : VarRef} (hn : s.lookupKind? v.name v.kind = none) :
    ρ.vars.lookup v = none := by
  have hv := h v
  rw [hn, Option.map_none] at hv
  exact Option.map_eq_none_iff.1 hv.symm

theorem find_some {v : VarRef} {n : Nat} (hn : v.slot? s = some n) :
    ∃ u, ρ.find? v = some u ∧ locals[n]? = some (.value u) := by
  cases v with
  | param name =>
    obtain hn | ⟨hnone, hn⟩ := Option.or_eq_some_iff.1 hn
    · obtain ⟨u, hu, hl⟩ := h.lookup_some (v := .param name) hn
      exact ⟨u, by rw [Names.find?, hu, Option.some_or], hl⟩
    · obtain ⟨u, hu, hl⟩ := h.lookup_some (v := .injected name) hn
      exact ⟨u, by rw [Names.find?, h.lookup_none (v := .param name) hnone, Option.none_or, hu], hl⟩
  | state name => exact h.lookup_some (v := .state name) hn
  | bound name => exact h.lookup_some (v := .bound name) hn
  | injected name => exact h.lookup_some (v := .injected name) hn

end Scopes.Matches

/-- Holds of an activation of a template that has in its slots what names in scope stand for, and no
calls under way. -/
structure Activation.Stands (unit : Nat) (t : CompiledTemplate) (s : Scopes) (ρ : Names)
    (a : Activation) : Prop where
  unit : a.unit = unit
  template : a.template = t
  params : a.params = ρ.params
  waiting : a.waiting = none
  names : s.Matches ρ a.locals

section Constants

variable {S : Sources} {unit : Nat} {owner : String} {ρ : Names}

theorem Render.ofData_of_toOption {r : Except DataError Value} {v : Value} (h : r.toOption = some v) :
    Render.ofData r = .ok v := by
  rw [Except.toOption_eq_some h]
  rfl

mutual

theorem Expr.meaning_of_constantValue? : {e : Expr} → {v : Value} → e.constantValue? = some v →
    e.meaning S unit owner ρ = .ok v
  | .literal l, v, h => by
    cases h
    rfl
  | .binary op l r, v, h => by
    simp only [Expr.constantValue?, Option.bind_eq_bind, Option.bind_eq_some_iff] at h
    obtain ⟨a, ha, h⟩ := h
    simp only [Expr.meaning, Expr.meaning_of_constantValue? ha, Except.ok_bind,
      (Expr.constantValue?_isPlain ha).forced]
    cases hu : op.decidedBy? a with
    | some u =>
      rw [hu] at h
      cases h
      rfl
    | none =>
      rw [hu] at h
      obtain ⟨b, hb, h⟩ := Option.bind_eq_some_iff.1 h
      dsimp only
      rw [Expr.meaning_of_constantValue? hb, Except.ok_bind, (Expr.constantValue?_isPlain hb).forced]
      exact Render.ofData_of_toOption h
  | .unary op e, v, h => by
    simp only [Expr.constantValue?, Option.bind_eq_bind, Option.bind_eq_some_iff] at h
    obtain ⟨a, ha, h⟩ := h
    rw [Expr.meaning, Expr.meaning_of_constantValue? ha, Except.ok_bind,
      (Expr.constantValue?_isPlain ha).forced]
    exact Render.ofData_of_toOption h
  | .cond c t e, v, h => by
    simp only [Expr.constantValue?, Option.bind_eq_bind, Option.bind_eq_some_iff] at h
    obtain ⟨a, ha, h⟩ := h
    rw [Expr.meaning, Expr.meaning_of_constantValue? ha, Except.ok_bind,
      (Expr.constantValue?_isPlain ha).forced]
    split at h
    · rw [if_pos ‹_›, Expr.meaning_of_constantValue? h, Except.ok_bind,
        (Expr.constantValue?_isPlain h).forced]
      rfl
    · rw [if_neg ‹_›, Expr.meaning_of_constantValue? h, Except.ok_bind,
        (Expr.constantValue?_isPlain h).forced]
      rfl
  | .list es, v, h => by
    simp only [Expr.constantValue?, Option.bind_eq_bind, Option.bind_eq_some_iff] at h
    obtain ⟨vs, hvs, h⟩ := h
    cases h
    rw [Expr.meaning, Expr.meanings_of_constantValues? hvs]
    rfl
  | .record fs, v, h => by
    simp only [Expr.constantValue?, Option.bind_eq_bind, Option.bind_eq_some_iff] at h
    obtain ⟨vs, hvs, h⟩ := h
    cases h
    rw [Expr.meaning, Expr.fieldMeanings_of_constantFields? hvs]
    rfl
  | .field b n s, v, h => by
    simp only [Expr.constantValue?, Option.bind_eq_bind, Option.bind_eq_some_iff] at h
    obtain ⟨a, ha, h⟩ := h
    rw [Expr.meaning, Expr.meaning_of_constantValue? ha, Except.ok_bind,
      (Expr.constantValue?_isPlain ha).forced]
    exact Render.ofData_of_toOption h
  | .index b k, v, h => by
    simp only [Expr.constantValue?, Option.bind_eq_bind, Option.bind_eq_some_iff] at h
    obtain ⟨a, ha, u, hu, h⟩ := h
    simp only [Expr.meaning, Expr.meaning_of_constantValue? ha, Except.ok_bind,
      (Expr.constantValue?_isPlain ha).forced, Expr.meaning_of_constantValue? hu,
      (Expr.constantValue?_isPlain hu).forced]
    exact Render.ofData_of_toOption h
  | .builtin f es, v, h => by
    simp only [Expr.constantValue?, Option.bind_eq_bind, Option.bind_eq_some_iff] at h
    obtain ⟨vs, hvs, h⟩ := h
    rw [Expr.meaning, Expr.meanings_of_constantValues? hvs]
    exact Render.ofData_of_toOption h
  | .var _, _, h | .template _, _, h | .element .., _, h => by cases h

theorem Expr.meanings_of_constantValues? : {es : List Expr} → {vs : List Value} →
    Expr.constantValues? es = some vs → Expr.meanings S unit owner ρ es = .ok vs
  | [], vs, h => by
    cases h
    rfl
  | e :: es, vs, h => by
    simp only [Expr.constantValues?, Option.bind_eq_bind, Option.bind_eq_some_iff] at h
    obtain ⟨v, hv, us, hus, h⟩ := h
    cases h
    rw [Expr.meanings, Expr.meaning_of_constantValue? hv, Except.ok_bind,
      (Expr.constantValue?_isPlain hv).forced, Expr.meanings_of_constantValues? hus]
    rfl

theorem Expr.fieldMeanings_of_constantFields? : {fs : List (String × Expr)} →
    {vs : List (String × Value)} → Expr.constantFields? fs = some vs →
      Expr.fieldMeanings S unit owner ρ fs = .ok vs
  | [], vs, h => by
    cases h
    rfl
  | (k, e) :: fs, vs, h => by
    simp only [Expr.constantFields?, Option.bind_eq_bind, Option.bind_eq_some_iff] at h
    obtain ⟨v, hv, us, hus, h⟩ := h
    cases h
    rw [Expr.fieldMeanings, Expr.meaning_of_constantValue? hv, Except.ok_bind,
      (Expr.constantValue?_isPlain hv).forced, Expr.fieldMeanings_of_constantFields? hus]
    rfl

end

theorem Expr.meaning_of_fold? {e : Expr} {v : Value} (h : e.fold? = some v) :
    e.meaning S unit owner ρ = .ok v := by
  unfold Expr.fold? at h
  split at h
  · exact Expr.meaning_of_constantValue? h
  · cases h

end Constants

section Codes

open Compile

variable {S : Sources} {w : World} {unit : Nat} {t : CompiledTemplate} {ρ : Names} {a : Activation}
  {σ τ υ : CompileState}

theorem VarRef.read_some {v : VarRef} {u : Value} (h : ρ.find? v = some u) (injected : Record) :
    ρ.read injected v = u := by
  cases v <;> simp [Names.read, h]

theorem Activation.Stands.of_same (h : a.Stands unit t σ.scopes ρ) (hs : σ.Same τ) :
    a.Stands unit t τ.scopes ρ := by
  rw [hs.scopes]
  exact h

theorem Activation.Stands.variable (h : a.Stands unit t σ.scopes ρ) {v : VarRef} {n : Nat}
    (hn : v.slot? σ.scopes = some n) (injected : Record) :
    a.variable n = .ok (ρ.read injected v) := by
  obtain ⟨u, hu, hl⟩ := h.names.find_some hn
  rw [Activation.variable_of hl, VarRef.read_some hu]

variable (hw : S.Fits w)

include hw

set_option linter.unusedSectionVars false in
mutual

/-- The code of an expression has its meaning wherever the slots of names have their values. -/
theorem Expr.compile_means : {e : Expr} → {c : Code} → {σ τ : CompileState} →
    e.compile.Yields σ c τ → a.Stands unit t σ.scopes ρ →
      c.value w a = e.meaning S unit t.name ρ := by
  intro e c σ τ h ha
  cases Expr.compile_lowers h with
  | folded hv => rw [Expr.meaning_of_fold? hv, Code.value]
  | literal | element => rfl
  | slot hn => exact ha.variable hn S.injected
  | @injected name _ hn =>
    have hnone := ha.names.lookup_none (v := .injected name) hn
    change _ = Except.ok ((ρ.vars.lookup (.injected name)).getD _)
    rw [Code.value, hnone, Option.getD_none, hw.injected]
  | binary hx hy =>
    rewrite [Code.value, Expr.meaning, Expr.compile_means hx ha,
      Expr.compile_means hy (ha.of_same (Expr.compile_same hx))]
    rfl
  | unary hx | field hx => rw [Code.value, Expr.meaning, Expr.compile_means hx ha]
  | cond hx hy hz =>
    have hυ := ha.of_same (Expr.compile_same hx)
    rw [Code.value, Expr.meaning, Expr.compile_means hx ha, Expr.compile_means hy hυ,
      Expr.compile_means hz (hυ.of_same (Expr.compile_same hy))]
  | list hcs | builtin hcs => rw [Code.value, Expr.meaning, Expr.compileAll_means hcs ha]
  | record hcs => rw [Code.value, Expr.meaning, Expr.compileFields_means hcs ha]
  | index hx hy =>
    rw [Code.value, Expr.meaning, Expr.compile_means hx ha,
      Expr.compile_means hy (ha.of_same (Expr.compile_same hx))]
  | template => rw [Code.value, Expr.meaning, hw.template, ha.unit, hw.library]
  | described => rw [Code.value, Expr.meaning, hw.element, ha.unit, ha.template]

theorem Expr.compileAll_means : {es : List Expr} → {cs : List Code} → {σ τ : CompileState} →
    (Expr.compileAll es).Yields σ cs τ → a.Stands unit t σ.scopes ρ →
      Code.values w a cs = Expr.meanings S unit t.name ρ es
  | [], cs, σ, τ, h, ha => by
    obtain ⟨rfl, -⟩ := Expr.compileAll_nil h
    rfl
  | e :: es, cs, σ, τ, h, ha => by
    obtain ⟨x, υ, ys, hx, hy, rfl⟩ := Expr.compileAll_cons h
    rw [Code.values, Expr.meanings, Expr.compile_means hx ha,
      Expr.compileAll_means hy (ha.of_same (Expr.compile_same hx))]

theorem Expr.compileFields_means : {fs : List (String × Expr)} → {cs : List (String × Code)} →
    {σ τ : CompileState} → (Expr.compileFields fs).Yields σ cs τ → a.Stands unit t σ.scopes ρ →
      Code.fields w a cs = Expr.fieldMeanings S unit t.name ρ fs
  | [], cs, σ, τ, h, ha => by
    obtain ⟨rfl, -⟩ := Expr.compileFields_nil h
    rfl
  | (k, e) :: fs, cs, σ, τ, h, ha => by
    obtain ⟨x, υ, ys, hx, hy, rfl⟩ := Expr.compileFields_cons h
    rw [Code.fields, Expr.fieldMeanings, Expr.compile_means hx ha,
      Expr.compileFields_means hy (ha.of_same (Expr.compile_same hx))]

end

theorem Expr.compile_outcome {e : Expr} {c : Code} (h : e.compile.Yields σ c τ)
    (ha : a.Stands unit t σ.scopes ρ) : c.result w a = e.outcome S unit t.name ρ := by
  rw [Code.result, Expr.outcome, Expr.compile_means hw h ha]

theorem Expr.compileAll_matched {es : List Expr} {cs : List Code}
    (h : (Expr.compileAll es).Yields σ cs τ) (ha : a.Stands unit t σ.scopes ρ) (subject : Value) :
    a.matched w subject cs = Expr.matched S unit t.name ρ subject es := by
  induction es generalizing cs σ τ with
  | nil =>
    obtain ⟨rfl, -⟩ := Expr.compileAll_nil h
    rfl
  | cons e es ih =>
    obtain ⟨x, υ, ys, hx, hy, rfl⟩ := Expr.compileAll_cons h
    rw [Activation.matched, Expr.matched, Expr.compile_outcome hw hx ha,
      ih hy (ha.of_same (Expr.compile_same hx))]

theorem CallData.compile_means {data : CallData} {base : ParamsBase}
    (h : (paramsBase data).Yields σ base τ) (ha : a.Stands unit t σ.scopes ρ) :
    a.base w base = data.meaning S unit t.name ρ := by
  cases paramsBase_lowers h with
  | none => rfl
  | all => exact congrArg Except.ok ha.params
  | expr hc => rw [Activation.base, CallData.meaning, Expr.compile_outcome hw hc ha]

theorem CallTarget.compile_means {target : CallTarget} {callee : Callee}
    (h : (Compile.callee target).Yields σ callee τ) (ha : a.Stands unit t σ.scopes ρ) :
    a.callee w callee = target.meaning S unit t.name ρ := by
  cases callee_lowers h with
  | template => rw [Activation.callee, CallTarget.meaning, hw.template, ha.unit]
  | delegate =>
    rw [Activation.callee, CallTarget.meaning, hw.lookup]
    rfl
  | variant hc =>
    rw [Activation.callee, CallTarget.meaning, hw.lookup, Activation.variant,
      Expr.compile_outcome hw hc ha]
    rfl

end Codes

end ResumableTemplates
