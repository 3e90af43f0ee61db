import ResumableTemplates.Proofs.Fallible
import ResumableTemplates.Proofs.Value.Closed

/-! Values without what their templates refer to. A template as a value is its name to whoever looks at
it: values that agree but in what their templates refer to are the same to every operator. -/
namespace ResumableTemplates

namespace Value

mutual

def bare : Value → Value
  | list vs => list (bareAll vs)
  | record fs => record (bareFields fs)
  | template name _ => template name (.host 0)
  | lazy i v => lazy i v.bare
  | v => v

def bareAll : List Value → List Value
  | [] => []
  | v :: vs => v.bare :: bareAll vs

def bareFields : List (String × Value) → List (String × Value)
  | [] => []
  | (k, v) :: fs => (k, v.bare) :: bareFields fs

end

theorem bareAll_eq_map (vs : List Value) : bareAll vs = vs.map bare := by
  induction vs with
  | nil => rfl
  | cons v vs ih => simp [bareAll, ih]

theorem bareFields_eq_map (fs : List (String × Value)) :
    bareFields fs = fs.map fun f => (f.1, f.2.bare) := by
  induction fs with
  | nil => rfl
  | cons f fs ih => simp [bareFields, ih]

@[simp] theorem isNull_bare (v : Value) : v.bare.isNull = v.isNull := by cases v <;> rfl

@[simp] theorem isTruthy_bare (v : Value) : v.bare.isTruthy = v.isTruthy := by cases v <;> rfl

@[simp] theorem typeName_bare (v : Value) : v.bare.typeName = v.typeName := by cases v <;> rfl

@[simp] theorem asFloat?_bare (v : Value) : v.bare.asFloat? = v.asFloat? := by cases v <;> rfl

@[simp] theorem asText?_bare (v : Value) : v.bare.asText? = v.asText? := by cases v <;> rfl

mutual

@[simp] theorem display_bare : (v : Value) → v.bare.display = v.display
  | list vs => by simp only [bare, display, displayAll_bare vs]
  | record fs => by simp only [bare, display, displayFields_bare fs]
  | null | bool _ | int _ | float _ | str _ | content .. | template .. | element _ | lazy .. => by
    simp only [bare, display]

theorem displayAll_bare : (vs : List Value) → displayAll (bareAll vs) = displayAll vs
  | [] => rfl
  | v :: vs => by simp only [bareAll, displayAll, v.display_bare, displayAll_bare vs]

theorem displayFields_bare :
    (fs : List (String × Value)) → displayFields (bareFields fs) = displayFields fs
  | [] => rfl
  | (_, v) :: fs => by simp only [bareFields, displayFields, v.display_bare, displayFields_bare fs]

end

mutual

@[simp] theorem longest_bare : (v : Value) → v.bare.longest = v.longest
  | list vs => by
    simp only [bare, longest, longestAmong_bare vs]
    rw [bareAll_eq_map, List.length_map]
  | record fs => by simp only [bare, longest, longestField_bare fs]
  | lazy _ v => by simp only [bare, longest, v.longest_bare]
  | null | bool _ | int _ | float _ | str _ | content .. | template .. | element _ => by
    simp only [bare, longest]

theorem longestAmong_bare : (vs : List Value) → longestAmong (bareAll vs) = longestAmong vs
  | [] => rfl
  | v :: vs => by simp only [bareAll, longestAmong, v.longest_bare, longestAmong_bare vs]

theorem longestField_bare :
    (fs : List (String × Value)) → longestField (bareFields fs) = longestField fs
  | [] => rfl
  | (_, v) :: fs => by simp only [bareFields, longestField, v.longest_bare, longestField_bare fs]

end

mutual

@[simp] theorem looseEq_bare : (v u : Value) → v.bare.looseEq u.bare = v.looseEq u
  | list vs, u => by
    cases u with
    | list us => simp only [bare, looseEq, looseEqAll_bare vs us]
    | _ => simp only [bare, looseEq]
  | record fs, u => by
    cases u with
    | record gs => simp only [bare, looseEq, strictEqFields_bare fs gs]
    | _ => simp only [bare, looseEq]
  | null, u | bool _, u | int _, u | float _, u | str _, u | content .., u | template .., u
  | element _, u | lazy .., u => by cases u <;> simp only [bare, looseEq]

theorem strictEq_bare : (v u : Value) → v.bare.strictEq u.bare = v.strictEq u
  | list vs, u => by
    cases u with
    | list us => simp only [bare, strictEq, looseEqAll_bare vs us]
    | _ => simp only [bare, strictEq]
  | record fs, u => by
    cases u with
    | record gs => simp only [bare, strictEq, strictEqFields_bare fs gs]
    | _ => simp only [bare, strictEq]
  | null, u | bool _, u | int _, u | float _, u | str _, u | content .., u | template .., u
  | element _, u | lazy .., u => by cases u <;> simp only [bare, strictEq]

theorem looseEqAll_bare :
    (vs us : List Value) → looseEqAll (bareAll vs) (bareAll us) = looseEqAll vs us
  | [], us => by cases us <;> simp only [bareAll, looseEqAll]
  | v :: vs, us => by
    cases us with
    | nil => simp only [bareAll, looseEqAll]
    | cons u us => simp only [bareAll, looseEqAll, v.looseEq_bare u, looseEqAll_bare vs us]

theorem strictEqFields_bare : (fs gs : List (String × Value)) →
    strictEqFields (bareFields fs) (bareFields gs) = strictEqFields fs gs
  | [], gs => by cases gs <;> simp only [bareFields, strictEqFields]
  | (k, v) :: fs, gs => by
    cases gs with
    | nil => simp only [bareFields, strictEqFields]
    | cons g gs =>
      obtain ⟨l, u⟩ := g
      simp only [bareFields, strictEqFields, v.strictEq_bare u, strictEqFields_bare fs gs]

end

/-- Holds of values that agree but in what their templates refer to. -/
def Same (v u : Value) : Prop := v.bare = u.bare

theorem Same.refl (v : Value) : v.Same v := rfl

theorem Same.of_eq {v u : Value} (h : v = u) : v.Same u := congrArg bare h

variable {v u v' u' : Value}

theorem Same.isNull (h : v.Same u) : v.isNull = u.isNull := by
  rw [← isNull_bare v, h, isNull_bare]

theorem Same.isTruthy (h : v.Same u) : v.isTruthy = u.isTruthy := by
  rw [← isTruthy_bare v, h, isTruthy_bare]

theorem Same.typeName (h : v.Same u) : v.typeName = u.typeName := by
  rw [← typeName_bare v, h, typeName_bare]

theorem Same.display (h : v.Same u) : v.display = u.display := by
  rw [← display_bare v, h, display_bare]

theorem Same.longest (h : v.Same u) : v.longest = u.longest := by
  rw [← longest_bare v, h, longest_bare]

theorem Same.looseEq (h : v.Same u) (h' : v'.Same u') : v.looseEq v' = u.looseEq u' := by
  rw [← looseEq_bare v v', h, h', looseEq_bare]

theorem arithmetic_bare (op : BinaryOp) (g : Int → Int → Int) (f : Float → Float → Float)
    (v u : Value) : arithmetic op g f v.bare u.bare = arithmetic op g f v u := by
  cases v <;> cases u <;> rfl

theorem modulo_bare (v u : Value) : modulo v.bare u.bare = modulo v u := by
  cases v <;> cases u <;> rfl

theorem compare?_bare (v u : Value) : compare? v.bare u.bare = compare? v u := by
  cases v <;> cases u <;> rfl

theorem comparison_bare (op : BinaryOp) (holds : Ordering → Bool) (v u : Value) :
    comparison op holds v.bare u.bare = comparison op holds v u := by
  simp only [comparison, compare?_bare, typeMismatch, typeName_bare]

theorem add_bare (v u : Value) : add v.bare u.bare = add v u := by
  simp only [add, asText?_bare, display_bare, arithmetic_bare]

theorem onFloats_bare (op : BinaryOp) (f : Float → Float → Float) (v u : Value) :
    onFloats op f v.bare u.bare = onFloats op f v u := by
  simp only [onFloats, asFloat?_bare, typeMismatch, typeName_bare]

theorem decidedBy?_bare (op : BinaryOp) (v : Value) :
    op.decidedBy? v.bare = (op.decidedBy? v).map bare := by
  cases op <;> simp only [BinaryOp.decidedBy?, isTruthy_bare, isNull_bare] <;>
    first | rfl | (split <;> rfl)

end Value

namespace Record

open Value (bare bareFields)

def Same (r q : Record) : Prop := bareFields r = bareFields q

theorem Same.refl (r : Record) : Same r r := rfl

theorem field?_bare (r : Record) (k : String) : field? (bareFields r) k = (field? r k).map bare := by
  induction r with
  | nil => rfl
  | cons f r ih =>
    obtain ⟨l, v⟩ := f
    simp only [bareFields, field?]
    split
    · rfl
    · exact ih

theorem read_bare (r : Record) (k : String) : read (bareFields r) k = (read r k).bare := by
  rw [read, field?_bare, read]
  cases field? r k <;> rfl

theorem insert_bare (r : Record) (k : String) (v : Value) :
    insert (bareFields r) k v.bare = bareFields (insert r k v) := by
  induction r with
  | nil => rfl
  | cons f r ih =>
    obtain ⟨l, u⟩ := f
    simp only [bareFields, insert]
    split
    · rfl
    · split
      · rfl
      · simp only [bareFields, ih]

variable {r q : Record}

theorem Same.read (h : Same r q) (k : String) : (read r k).Same (read q k) := by
  rw [Value.Same, ← read_bare, h, read_bare]

theorem Same.insert (h : Same r q) (k : String) {v u : Value} (hv : v.Same u) :
    Same (insert r k v) (insert q k u) := by
  rw [Same, ← insert_bare, h, show v.bare = u.bare from hv, insert_bare]

theorem Same.ofList (h : Same r q) : Same (ofList r) (ofList q) := by
  have key : ∀ r s : Record, bareFields (r.foldl (fun r f => Record.insert r f.1 f.2) s) =
      (bareFields r).foldl (fun r f => Record.insert r f.1 f.2) (bareFields s) := by
    intro r
    induction r with
    | nil => exact fun s => rfl
    | cons f r ih =>
      intro s
      simp only [List.foldl_cons, bareFields, ih, insert_bare]
  rw [Same, Record.ofList, Record.ofList, key, key, h]

end Record

namespace Value

theorem fieldOf_bare (v : Value) (name : String) (nullSafe : Bool) :
    fieldOf v.bare name nullSafe = (fieldOf v name nullSafe).map bare := by
  cases v with
  | record r => exact congrArg Except.ok (Record.read_bare r name)
  | null => cases nullSafe <;> rfl
  | _ => rfl

theorem item_bare (v u : Value) : item v.bare u.bare = (item v u).map bare := by
  cases v with
  | list vs =>
    cases u with
    | int n =>
      simp only [bare, item, Except.map, bareAll_eq_map, List.getElem?_map]
      split
      · rfl
      · cases vs[n.toInt.toNat]? <;> rfl
    | _ => rfl
  | record r =>
    simp only [bare, item, asText?_bare, typeName_bare]
    cases u.asText? with
    | none => rfl
    | some k => exact congrArg Except.ok (Record.read_bare r k)
  | _ => cases u <;> rfl

theorem binary_bare {op : BinaryOp} (hop : op ≠ .orElse) (v u : Value) :
    binary op v.bare u.bare = binary op v u := by
  cases op <;> simp only [binary, add_bare, arithmetic_bare, onFloats_bare, modulo_bare,
    looseEq_bare, comparison_bare, isTruthy_bare]
  exact absurd rfl hop

theorem unary_bare (op : UnaryOp) (v : Value) : unary op v.bare = unary op v := by
  cases op <;> cases v <;> rfl

theorem length_bare (v : Value) : length v.bare = length v := by
  cases v with
  | list vs => simp only [bare, length, bareAll_eq_map, List.length_map]
  | record r => simp only [bare, length, bareFields_eq_map, List.length_map]
  | _ => rfl

theorem apply_bare (f : Builtin) (vs : List Value) : apply f (bareAll vs) = apply f vs := by
  match vs with
  | [] => rfl
  | [v] =>
    cases f
    · exact length_bare v
    · simp only [bareAll, apply, isNull_bare]
    · simp only [bareAll, apply, display_bare]
  | _ :: _ :: vs =>
    simp only [bareAll, apply, List.length_cons, bareAll_eq_map vs, List.length_map]

variable {v u v' u' : Value}

/-- Results that come to the same without what templates refer to. -/
theorem paired_of_bare {x y : Except DataError Value} (h : x.map bare = y.map bare) :
    Paired (fun _ => True) Same x y := by
  cases x <;> cases y <;> simp only [Except.map, reduceCtorEq, Except.ok.injEq, Except.error.injEq] at h
  · exact ⟨h, trivial⟩
  · exact h

theorem Same.fieldOf (h : v.Same u) (name : String) (nullSafe : Bool) :
    Paired (fun _ => True) Same (v.fieldOf name nullSafe) (u.fieldOf name nullSafe) :=
  paired_of_bare (by rw [← fieldOf_bare, h, fieldOf_bare])

theorem Same.item (h : v.Same u) (h' : v'.Same u') :
    Paired (fun _ => True) Same (v.item v') (u.item u') :=
  paired_of_bare (by rw [← item_bare, h, h', item_bare])

theorem Same.binary (h : v.Same u) (h' : v'.Same u') (op : BinaryOp) :
    Paired (fun _ => True) Same (binary op v v') (binary op u u') := by
  by_cases hop : op = .orElse
  · subst hop
    simp only [Value.binary, h.isNull]
    split
    · exact h'
    · exact h
  · exact paired_of_bare (by rw [← binary_bare hop v v', h, h', binary_bare hop])

theorem Same.unary (h : v.Same u) (op : UnaryOp) :
    Paired (fun _ => True) Same (unary op v) (unary op u) :=
  paired_of_bare (by rw [← unary_bare op v, h, unary_bare])

theorem apply_same {vs us : List Value} (h : bareAll vs = bareAll us) (f : Builtin) :
    Paired (fun _ => True) Same (apply f vs) (apply f us) :=
  paired_of_bare (by rw [← apply_bare f vs, h, apply_bare])

end Value

end ResumableTemplates
