import ResumableTemplates.Proofs.Value.Congruence

/-! The equalities as equivalences. What keeps them from it are floats, of which one differs from itself and
others equal several integers, and providers, of which loose equality makes nothing. Main statement: on the
values without either, both equalities are equivalence relations and strict equality is the narrower one. -/
namespace ResumableTemplates.Value

mutual

/-- Holds of the values without a float or a provider in them. -/
def isExact : Value → Bool
  | float _ | lazy .. => false
  | list vs => itemsAreExact vs
  | record fs => fieldsAreExact fs
  | _ => true

def itemsAreExact : List Value → Bool
  | [] => true
  | v :: vs => v.isExact && itemsAreExact vs

def fieldsAreExact : List (String × Value) → Bool
  | [] => true
  | (_, v) :: fs => v.isExact && fieldsAreExact fs

end

mutual

theorem looseEq_refl : {v : Value} → v.isExact = true → v.looseEq v = true
  | list vs, h => by
    rw [isExact] at h
    rw [looseEq, looseEqAll_refl h]
  | record fs, h => by
    rw [isExact] at h
    rw [looseEq, strictEqFields_refl h]
  | float _, h | lazy .., h => by simp only [isExact, Bool.false_eq_true] at h
  | null, _ | bool _, _ | int _, _ | str _, _ | content .., _ | template .., _ | element _, _ => by
    simp only [looseEq, BEq.rfl]

theorem strictEq_refl : {v : Value} → v.isExact = true → v.strictEq v = true
  | list vs, h => by
    rw [isExact] at h
    rw [strictEq, looseEqAll_refl h]
  | record fs, h => by
    rw [isExact] at h
    rw [strictEq, strictEqFields_refl h]
  | float _, h | lazy .., h => by simp only [isExact, Bool.false_eq_true] at h
  | null, _ | bool _, _ | int _, _ | str _, _ | content .., _ | template .., _ | element _, _ => by
    simp only [strictEq, BEq.rfl, Bool.and_true]

theorem looseEqAll_refl : {vs : List Value} → itemsAreExact vs = true → looseEqAll vs vs = true
  | [], _ => by rw [looseEqAll]
  | v :: vs, h => by
    rw [itemsAreExact, Bool.and_eq_true] at h
    rw [looseEqAll, looseEq_refl h.1, looseEqAll_refl h.2, Bool.and_true]

theorem strictEqFields_refl :
    {fs : List (String × Value)} → fieldsAreExact fs = true → strictEqFields fs fs = true
  | [], _ => by rw [strictEqFields]
  | (k, v) :: fs, h => by
    rw [fieldsAreExact, Bool.and_eq_true] at h
    rw [strictEqFields, strictEq_refl h.1, strictEqFields_refl h.2, BEq.rfl, Bool.and_true,
      Bool.and_true]

end

mutual

theorem converted_of_isExact : {v w : Value} → v.isExact = true → w.isExact = true →
    v.converted w = []
  | list vs, w, hv, hw => by
    cases w with
    | list ws =>
      rw [isExact] at hv hw
      rw [converted, convertedAll_of_areExact hv hw]
    | _ => simp only [converted]
  | record fs, w, hv, hw => by
    cases w with
    | record gs =>
      rw [isExact] at hv hw
      rw [converted, convertedFields_of_areExact hv hw]
    | _ => simp only [converted]
  | int _, w, _, hw => by
    cases w with
    | float x => simp only [isExact, Bool.false_eq_true] at hw
    | _ => simp only [converted]
  | float _, _, hv, _ | lazy .., _, hv, _ => by simp only [isExact, Bool.false_eq_true] at hv
  | null, _, _, _ | bool _, _, _, _ | str _, _, _, _ | content .., _, _, _ | template .., _, _, _
  | element _, _, _, _ => by simp only [converted]

theorem convertedAll_of_areExact : {vs ws : List Value} → itemsAreExact vs = true →
    itemsAreExact ws = true → convertedAll vs ws = []
  | [], _, _, _ => by simp only [convertedAll]
  | v :: vs, ws, hv, hw => by
    cases ws with
    | nil => simp only [convertedAll]
    | cons w ws =>
      rw [itemsAreExact, Bool.and_eq_true] at hv hw
      rw [convertedAll, converted_of_isExact hv.1 hw.1, convertedAll_of_areExact hv.2 hw.2,
        List.append_nil]

theorem convertedFields_of_areExact : {fs gs : List (String × Value)} →
    fieldsAreExact fs = true → fieldsAreExact gs = true → convertedFields fs gs = []
  | [], _, _, _ => by simp only [convertedFields]
  | (_, v) :: fs, gs, hf, hg => by
    cases gs with
    | nil => simp only [convertedFields]
    | cons g gs =>
      rw [fieldsAreExact, Bool.and_eq_true] at hf hg
      rw [convertedFields, converted_of_isExact hf.1 hg.1,
        convertedFields_of_areExact hf.2 hg.2, List.append_nil]

end

abbrev Exact := { v : Value // v.isExact = true }

namespace Exact

theorem apart (v w : Exact) (ms : List Int64) : Apart (v.1.converted w.1) ms := by
  rw [converted_of_isExact v.2 w.2]
  exact fun n hn => absurd hn List.not_mem_nil

theorem looseEq_trans {v w u : Exact} (h : v.1.looseEq w.1 = true) (h' : w.1.looseEq u.1 = true) :
    v.1.looseEq u.1 = true :=
  (looseEq_congr h (v.apart w _)).trans h'

theorem strictEq_trans {v w u : Exact} (h : v.1.strictEq w.1 = true)
    (h' : w.1.strictEq u.1 = true) : v.1.strictEq u.1 = true :=
  (strictEq_congr h (v.apart w _)).trans h'

/-- On values without floats and providers both equalities are equivalences, of which strict equality is
the narrower one. -/
theorem equality :
    Equivalence (fun v w : Exact => v.1.looseEq w.1 = true) ∧
      Equivalence (fun v w : Exact => v.1.strictEq w.1 = true) ∧
      ∀ v w : Exact, v.1.strictEq w.1 = true → v.1.looseEq w.1 = true := by
  refine ⟨⟨fun v => looseEq_refl v.2, fun h => ?_, looseEq_trans⟩,
    ⟨fun v => strictEq_refl v.2, fun h => ?_, strictEq_trans⟩, fun v w h => ?_⟩
  · rwa [looseEq_comm]
  · rwa [strictEq_comm]
  · obtain h | ⟨i, a, b, hv, -⟩ := looseEq_of_strictEq h
    · exact h
    · have hexact := v.2
      simp only [hv, isExact, Bool.false_eq_true] at hexact

/-- A name as text, as html and as css stays one name in a list, whose record is the same for each. -/
theorem equality_name :
    let row (v : Value) (hv : v.isExact = true) : Exact :=
      ⟨list [v, record [("n", int 1), ("t", template "letter" (.host 0))]], by
        simp [isExact, itemsAreExact, fieldsAreExact, hv]⟩
    let text := row (str "Ada") rfl
    let html := row (content .html "Ada") rfl
    let css := row (content .css "Ada") rfl
    text.1.looseEq html.1 = true ∧ html.1.looseEq css.1 = true ∧ text.1.looseEq css.1 = true ∧
      text.1.strictEq text.1 = true ∧ text.1.looseEq text.1 = true := by
  intro row text html css
  have hfirst : text.1.looseEq html.1 = true := by
    simp [text, html, row, looseEq, looseEqAll, strictEqFields, strictEq]
  have hsecond : html.1.looseEq css.1 = true := by
    simp [html, css, row, looseEq, looseEqAll, strictEqFields, strictEq]
  exact ⟨hfirst, hsecond, equality.1.trans hfirst hsecond, equality.2.1.refl text,
    equality.2.2 text text (equality.2.1.refl text)⟩

end Exact

end ResumableTemplates.Value
