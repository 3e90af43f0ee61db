import ResumableTemplates.Value.Basic

/-!
The two equalities of values. Loose equality, the language's own, compares integers with floats and
strings with content; strict equality tells them apart. Each uses the other inside: the items of
lists are always compared loosely, the fields of records always strictly.
-/
namespace ResumableTemplates.Value

mutual

/-- The equality of `==` and of `switch`. A lazy value equals nothing. -/
def looseEq : Value → Value → Bool
  | null, null => true
  | bool a, bool b => a == b
  | int a, int b => a == b
  | int a, float b => floatOf a == b
  | float a, int b => a == floatOf b
  | float a, float b => a == b
  | list a, list b => looseEqAll a b
  | record a, record b => strictEqFields a b
  | template a _, template b _ => a == b
  | element a, element b => a.id == b.id
  | str a, str b => a == b
  | str a, content _ b => a == b
  | content _ a, str b => a == b
  | content _ a, content _ b => a == b
  | _, _ => false

/-- Equality of values of the same type; content also agrees in its kind, and a lazy value equals
one of the same provider. -/
def strictEq : Value → Value → Bool
  | null, null => true
  | bool a, bool b => a == b
  | int a, int b => a == b
  | float a, float b => a == b
  | str a, str b => a == b
  | list a, list b => looseEqAll a b
  | record a, record b => strictEqFields a b
  | content k a, content l b => k == l && a == b
  | template a _, template b _ => a == b
  | element a, element b => a.id == b.id
  | lazy a _, lazy b _ => a == b
  | _, _ => false

def looseEqAll : List Value → List Value → Bool
  | [], [] => true
  | a :: as, b :: bs => a.looseEq b && looseEqAll as bs
  | _, _ => false

def strictEqFields : List (String × Value) → List (String × Value) → Bool
  | [], [] => true
  | (k, a) :: as, (l, b) :: bs => k == l && a.strictEq b && strictEqFields as bs
  | _, _ => false

end

end ResumableTemplates.Value
