import ResumableTemplates.Proofs.Value.Lazy

/-! Providers inside lists and records. Only a value that is itself lazy is ever forced, so whoever looks
at a list or a record finds the providers in it as they are: in a text each stands as a mark that says
nothing of it, and no comparison knows more of it than which provider it is. -/
namespace ResumableTemplates

namespace Value

mutual

/-- A value with something else in the place of each provider that can be seen in it. -/
def onLazy (f : Nat → Value → Value) : Value → Value
  | list vs => list (onLazyAll f vs)
  | record fs => record (onLazyFields f fs)
  | lazy i v => f i v
  | v => v

def onLazyAll (f : Nat → Value → Value) : List Value → List Value
  | [] => []
  | v :: vs => v.onLazy f :: onLazyAll f vs

def onLazyFields (f : Nat → Value → Value) : List (String × Value) → List (String × Value)
  | [] => []
  | (k, v) :: fs => (k, v.onLazy f) :: onLazyFields f fs

end

/-- A value with something else in the place of each provider inside it. A value that is itself lazy stays
what it is. -/
def onNested (f : Nat → Value → Value) : Value → Value
  | list vs => list (onLazyAll f vs)
  | record fs => record (onLazyFields f fs)
  | v => v

def pendingMark : Value := str "<pending>"

def masked (v : Value) : Value := v.onNested fun _ _ => pendingMark

def veiled (v : Value) : Value := v.onNested fun i _ => lazy i null

section Roots

variable {f : Nat → Value → Value} (v : Value)

theorem asText?_onNested : (v.onNested f).asText? = v.asText? := by cases v <;> rfl

theorem arithmetic_onNested (op : BinaryOp) (g : Int → Int → Int) (h : Float → Float → Float)
    (u : Value) : arithmetic op g h (v.onNested f) (u.onNested f) = arithmetic op g h v u := by
  cases v <;> cases u <;> rfl

end Roots

mutual

/-- In a text every provider stands as the mark. -/
theorem display_onLazy : (v : Value) → (v.onLazy fun _ _ => pendingMark).display = v.display
  | list vs => by simp only [onLazy, display, displayAll_onLazy vs]
  | record fs => by simp only [onLazy, display, displayFields_onLazy fs]
  | null | bool _ | int _ | float _ | str _ | content .. | template .. | element _ | lazy .. => by
    simp only [onLazy, pendingMark, display]

theorem displayAll_onLazy : (vs : List Value) →
    displayAll (onLazyAll (fun _ _ => pendingMark) vs) = displayAll vs
  | [] => rfl
  | v :: vs => by simp only [onLazyAll, displayAll, display_onLazy v, displayAll_onLazy vs]

theorem displayFields_onLazy : (fs : List (String × Value)) →
    displayFields (onLazyFields (fun _ _ => pendingMark) fs) = displayFields fs
  | [] => rfl
  | (_, v) :: fs => by
    simp only [onLazyFields, displayFields, display_onLazy v, displayFields_onLazy fs]

end

@[simp] theorem display_masked (v : Value) : v.masked.display = v.display := by
  cases v with
  | list vs => exact display_onLazy (list vs)
  | record fs => exact display_onLazy (record fs)
  | _ => rfl

theorem add_masked (v u : Value) : add v.masked u.masked = add v u := by
  rw [add, display_masked, display_masked]
  simp only [masked, asText?_onNested, arithmetic_onNested, add]

mutual

theorem looseEq_onLazy : (v u : Value) →
    (v.onLazy fun i _ => lazy i null).looseEq (u.onLazy fun i _ => lazy i null) = v.looseEq u
  | list vs, u => by
    cases u with
    | list us => simp only [onLazy, looseEq, looseEqAll_onLazy vs us]
    | _ => simp only [onLazy, looseEq]
  | record fs, u => by
    cases u with
    | record gs => simp only [onLazy, looseEq, strictEqFields_onLazy fs gs]
    | _ => simp only [onLazy, looseEq]
  | null, u | bool _, u | int _, u | float _, u | str _, u | content .., u | template .., u
  | element _, u | lazy .., u => by cases u <;> simp only [onLazy, looseEq]

theorem strictEq_onLazy : (v u : Value) →
    (v.onLazy fun i _ => lazy i null).strictEq (u.onLazy fun i _ => lazy i null) = v.strictEq u
  | list vs, u => by
    cases u with
    | list us => simp only [onLazy, strictEq, looseEqAll_onLazy vs us]
    | _ => simp only [onLazy, strictEq]
  | record fs, u => by
    cases u with
    | record gs => simp only [onLazy, strictEq, strictEqFields_onLazy fs gs]
    | _ => simp only [onLazy, strictEq]
  | null, u | bool _, u | int _, u | float _, u | str _, u | content .., u | template .., u
  | element _, u | lazy .., u => by cases u <;> simp only [onLazy, strictEq]

theorem looseEqAll_onLazy : (vs us : List Value) →
    looseEqAll (onLazyAll (fun i _ => lazy i null) vs) (onLazyAll (fun i _ => lazy i null) us) =
      looseEqAll vs us
  | [], us => by cases us <;> simp only [onLazyAll, looseEqAll]
  | v :: vs, us => by
    cases us with
    | nil => simp only [onLazyAll, looseEqAll]
    | cons u us => simp only [onLazyAll, looseEqAll, looseEq_onLazy v u, looseEqAll_onLazy vs us]

theorem strictEqFields_onLazy : (fs gs : List (String × Value)) →
    strictEqFields (onLazyFields (fun i _ => lazy i null) fs)
      (onLazyFields (fun i _ => lazy i null) gs) = strictEqFields fs gs
  | [], gs => by cases gs <;> simp only [onLazyFields, strictEqFields]
  | (k, v) :: fs, gs => by
    cases gs with
    | nil => simp only [onLazyFields, strictEqFields]
    | cons g gs =>
      obtain ⟨l, u⟩ := g
      simp only [onLazyFields, strictEqFields, strictEq_onLazy v u, strictEqFields_onLazy fs gs]

end

/-- Values are equal whatever is behind the providers inside them. -/
theorem looseEq_veiled (v u : Value) : v.veiled.looseEq u.veiled = v.looseEq u := by
  cases v with
  | list vs =>
    cases u with
    | list us => exact looseEq_onLazy (list vs) (list us)
    | _ => simp only [veiled, onNested, looseEq]
  | record fs =>
    cases u with
    | record gs => exact looseEq_onLazy (record fs) (record gs)
    | _ => simp only [veiled, onNested, looseEq]
  | _ => cases u <;> simp only [veiled, onNested, looseEq]

theorem looseEqAll_of_lazy_mem {vs us : List Value} {i : Nat} {v : Value} (h : lazy i v ∈ vs) :
    looseEqAll vs us = false ∧ looseEqAll us vs = false := by
  induction vs generalizing us with
  | nil => cases h
  | cons u vs ih =>
    cases us with
    | nil => exact ⟨by simp only [looseEqAll], by simp only [looseEqAll]⟩
    | cons u' us =>
      simp only [looseEqAll]
      cases h with
      | head => cases u' <;> simp only [looseEq, Bool.false_and, and_self]
      | tail _ h =>
        have hrest : looseEqAll vs us = false ∧ looseEqAll us vs = false := ih h
        simp only [hrest.1, hrest.2, Bool.and_false, and_self]

theorem field?_of_strictEqFields {fs gs : List (String × Value)} (h : strictEqFields fs gs = true)
    (k : String) (i : Nat) : (∃ v, Record.field? fs k = some (lazy i v)) ↔
      ∃ v, Record.field? gs k = some (lazy i v) := by
  induction fs generalizing gs with
  | nil =>
    cases gs with
    | nil => exact Iff.rfl
    | cons g gs => simp [strictEqFields] at h
  | cons f fs ih =>
    obtain ⟨l, v⟩ := f
    cases gs with
    | nil => simp [strictEqFields] at h
    | cons g gs =>
      obtain ⟨l', u⟩ := g
      simp only [strictEqFields, Bool.and_eq_true, beq_iff_eq] at h
      obtain ⟨⟨rfl, hvu⟩, hrest⟩ := h
      simp only [Record.field?]
      split
      · cases v <;> cases u <;> simp_all [strictEq]
      · exact ih hrest

end Value

end ResumableTemplates
