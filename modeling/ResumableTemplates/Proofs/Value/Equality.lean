import ResumableTemplates.Value.Equality

/-! Strict equality and types. What strict equality would be if it told types apart at every depth
stands beside it. The two agree on every value whose lists hold neither numbers nor texts nor
providers; the items of other lists are compared loosely, whatever equality the lists are compared
by. -/
namespace ResumableTemplates.Value

mutual

def identical : Value → Value → Bool
  | null, null => true
  | bool a, bool b => a == b
  | int a, int b => a == b
  | float a, float b => a == b
  | str a, str b => a == b
  | list a, list b => identicalAll a b
  | record a, record b => identicalFields a b
  | content k a, content l b => k == l && a == b
  | template a _, template b _ => a == b
  | element a, element b => a.id == b.id
  | lazy a _, lazy b _ => a == b
  | _, _ => false

def identicalAll : List Value → List Value → Bool
  | [], [] => true
  | a :: as, b :: bs => a.identical b && identicalAll as bs
  | _, _ => false

def identicalFields : List (String × Value) → List (String × Value) → Bool
  | [], [] => true
  | (k, a) :: as, (l, b) :: bs => k == l && a.identical b && identicalFields as bs
  | _, _ => false

end

/-- Holds of the values that loose equality takes for equal only to values of their own type, and to
themselves among these. -/
def isRigid : Value → Bool
  | int _ | float _ | str _ | content .. | lazy .. => false
  | null | bool _ | list _ | record _ | template .. | element _ => true

mutual

def listsAreRigid : Value → Bool
  | list vs => itemsAreRigid vs
  | record fs => fieldsAreRigid fs
  | _ => true

def itemsAreRigid : List Value → Bool
  | [] => true
  | v :: vs => v.isRigid && v.listsAreRigid && itemsAreRigid vs

def fieldsAreRigid : List (String × Value) → Bool
  | [] => true
  | (_, v) :: fs => v.listsAreRigid && fieldsAreRigid fs

end

mutual

/-- Strict equality tells types apart at every depth where no list holds a number, a text or a
provider. -/
theorem strictEq_eq_identical : {v : Value} → v.listsAreRigid = true → (w : Value) →
    v.strictEq w = v.identical w
  | list vs, hv, w => by
    rw [listsAreRigid] at hv
    cases w with
    | list ws => rw [strictEq, identical, looseEqAll_eq_identicalAll hv]
    | _ => simp only [strictEq, identical]
  | record fs, hv, w => by
    rw [listsAreRigid] at hv
    cases w with
    | record gs => rw [strictEq, identical, strictEqFields_eq_identicalFields hv]
    | _ => simp only [strictEq, identical]
  | null, _, w | bool _, _, w | int _, _, w | float _, _, w | str _, _, w | content .., _, w
  | template .., _, w | element _, _, w | lazy .., _, w => by
    cases w <;> simp only [strictEq, identical]

theorem looseEq_eq_identical : {v : Value} → v.isRigid = true → v.listsAreRigid = true →
    (w : Value) → v.looseEq w = v.identical w
  | list vs, _, hv, w => by
    rw [listsAreRigid] at hv
    cases w with
    | list ws => rw [looseEq, identical, looseEqAll_eq_identicalAll hv]
    | _ => simp only [looseEq, identical]
  | record fs, _, hv, w => by
    rw [listsAreRigid] at hv
    cases w with
    | record gs => rw [looseEq, identical, strictEqFields_eq_identicalFields hv]
    | _ => simp only [looseEq, identical]
  | null, _, _, w | bool _, _, _, w | template .., _, _, w | element _, _, _, w => by
    cases w <;> simp only [looseEq, identical]

theorem looseEqAll_eq_identicalAll : {vs : List Value} → itemsAreRigid vs = true →
    (ws : List Value) → looseEqAll vs ws = identicalAll vs ws
  | [], _, ws => by cases ws <;> simp only [looseEqAll, identicalAll]
  | v :: vs, hvs, ws => by
    rw [itemsAreRigid, Bool.and_eq_true, Bool.and_eq_true] at hvs
    obtain ⟨⟨hrigid, hv⟩, hvs⟩ := hvs
    cases ws with
    | nil => simp only [looseEqAll, identicalAll]
    | cons w ws =>
      rw [looseEqAll, identicalAll, looseEq_eq_identical hrigid hv, looseEqAll_eq_identicalAll hvs]

theorem strictEqFields_eq_identicalFields : {fs : List (String × Value)} →
    fieldsAreRigid fs = true → (gs : List (String × Value)) →
    strictEqFields fs gs = identicalFields fs gs
  | [], _, gs => by cases gs <;> simp only [strictEqFields, identicalFields]
  | (k, v) :: fs, hfs, gs => by
    rw [fieldsAreRigid, Bool.and_eq_true] at hfs
    cases gs with
    | nil => simp only [strictEqFields, identicalFields]
    | cons g gs =>
      rw [strictEqFields, identicalFields, strictEq_eq_identical hfs.1,
        strictEqFields_eq_identicalFields hfs.2]

end

/-- A list with a text in it is taken for the list of the same text as content. -/
example : (list [str "a"]).strictEq (list [content .html "a"]) = true ∧
    (list [str "a"]).identical (list [content .html "a"]) = false := by
  simp [strictEq, identical, looseEqAll, looseEq, identicalAll]

end ResumableTemplates.Value
