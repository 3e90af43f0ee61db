import ResumableTemplates.Proofs.Value.Closed

/-! Lazy values. Whoever looks at a value forces it first, so all that counts of a value is what it
comes down to behind its providers; a default also asks whether it is null, which a lazy value never
is. Values that agree in both are alike. -/
namespace ResumableTemplates

namespace Value

def forced : Value → Value
  | lazy _ v => v.forced
  | v => v

mutual

/-- Holds if every provider in a value is one of `asks`, also behind other providers. -/
def AsksOnly (asks : Nat → Prop) : Value → Prop
  | list vs => AsksOnlyAll asks vs
  | record fs => AsksOnlyFields asks fs
  | lazy i v => asks i ∧ v.AsksOnly asks
  | _ => True

def AsksOnlyAll (asks : Nat → Prop) : List Value → Prop
  | [] => True
  | v :: vs => v.AsksOnly asks ∧ AsksOnlyAll asks vs

def AsksOnlyFields (asks : Nat → Prop) : List (String × Value) → Prop
  | [] => True
  | (_, v) :: fs => v.AsksOnly asks ∧ AsksOnlyFields asks fs

end

def IsPlain (v : Value) : Prop := v.AsksOnly fun _ => False

variable {asks : Nat → Prop}

theorem asksOnlyAll_iff {vs : List Value} :
    AsksOnlyAll asks vs ↔ ∀ v ∈ vs, v.AsksOnly asks := by
  induction vs with
  | nil => simp [AsksOnlyAll]
  | cons v vs ih => simp [AsksOnlyAll, ih]

theorem asksOnlyFields_iff {fs : List (String × Value)} :
    AsksOnlyFields asks fs ↔ ∀ f ∈ fs, f.2.AsksOnly asks := by
  induction fs with
  | nil => simp [AsksOnlyFields]
  | cons f fs ih => simp [AsksOnlyFields, ih]

theorem AsksOnly.closed (asks : Nat → Prop) : Closed (fun _ => True) (AsksOnly asks) where
  atom {v} h := by cases v <;> trivial
  list _ h := asksOnlyAll_iff.2 h
  item h := asksOnlyAll_iff.1 h _
  record h := asksOnlyFields_iff.2 h
  field h := asksOnlyFields_iff.1 h _
  yields h := h.2

theorem Closed.forced {room : Nat → Prop} {P : Value → Prop} (h : Closed room P) {v : Value}
    (hv : P v) : P v.forced := by
  induction v using forced.induct with
  | case1 i v ih => exact ih (h.yields hv)
  | case2 v hl =>
    have : v.forced = v := by cases v <;> first | rfl | exact absurd rfl (hl _ _)
    rwa [this]

mutual

theorem IsPlain.asksOnly : {v : Value} → v.IsPlain → v.AsksOnly asks
  | list _, h => asksOnlyAll_of_isPlain h
  | record _, h => asksOnlyFields_of_isPlain h
  | lazy .., h => h.1.elim
  | null, _ | bool _, _ | int _, _ | float _, _ | str _, _ | content .., _ | template .., _
  | element _, _ => trivial

theorem asksOnlyAll_of_isPlain :
    {vs : List Value} → AsksOnlyAll (fun _ => False) vs → AsksOnlyAll asks vs
  | [], _ => trivial
  | _ :: _, h => ⟨IsPlain.asksOnly h.1, asksOnlyAll_of_isPlain h.2⟩

theorem asksOnlyFields_of_isPlain :
    {fs : List (String × Value)} → AsksOnlyFields (fun _ => False) fs → AsksOnlyFields asks fs
  | [], _ => trivial
  | _ :: _, h => ⟨IsPlain.asksOnly h.1, asksOnlyFields_of_isPlain h.2⟩

end

mutual

theorem asksOnly_all : (v : Value) → v.AsksOnly fun _ => True
  | list vs => asksOnlyAll_all vs
  | record fs => asksOnlyFields_all fs
  | lazy _ v => ⟨trivial, v.asksOnly_all⟩
  | null | bool _ | int _ | float _ | str _ | content .. | template .. | element _ => trivial

theorem asksOnlyAll_all : (vs : List Value) → AsksOnlyAll (fun _ => True) vs
  | [] => trivial
  | v :: vs => ⟨v.asksOnly_all, asksOnlyAll_all vs⟩

theorem asksOnlyFields_all : (fs : List (String × Value)) → AsksOnlyFields (fun _ => True) fs
  | [] => trivial
  | (_, v) :: fs => ⟨v.asksOnly_all, asksOnlyFields_all fs⟩

end

theorem IsPlain.forced {v : Value} (h : v.IsPlain) : v.forced = v := by
  cases v with
  | lazy i v => exact h.1.elim
  | _ => rfl

@[simp] theorem forced_forced (v : Value) : v.forced.forced = v.forced := by
  induction v using forced.induct with
  | case1 i v ih => simpa only [Value.forced] using ih
  | case2 v h => cases v <;> first | rfl | exact absurd rfl (h _ _)

theorem isNull_iff {v : Value} : v.isNull = true ↔ v = null := by
  cases v <;> simp [isNull]

/-- Holds of values that come down to the same, and are null both or neither. Where null may be deferred,
the first may also be lazy if the second is null. -/
def Alike (defers : Prop) (v u : Value) : Prop :=
  v.forced = u.forced ∧ (v.isNull = u.isNull ∨ defers ∧ u.isNull = true)

theorem Alike.refl {defers : Prop} (v : Value) : v.Alike defers v := ⟨rfl, .inl rfl⟩

theorem Alike.relax {defers : Prop} {v u : Value} (h : v.Alike False u) : v.Alike defers u :=
  ⟨h.1, h.2.imp_right fun hf => hf.1.elim⟩

end Value

namespace Record

theorem asksOnly_all (r : Record) : All (Value.AsksOnly fun _ => True) r := fun f _ => f.2.asksOnly_all

def Alike (defers : Prop) (r q : Record) : Prop :=
  ∀ k, field? r k = none ∧ field? q k = none ∨
    ∃ v u, field? r k = some v ∧ field? q k = some u ∧ v.Alike defers u

variable {defers : Prop}

theorem Alike.refl (r : Record) : Alike defers r r := by
  intro k
  cases h : field? r k with
  | none => exact .inl ⟨rfl, rfl⟩
  | some v => exact .inr ⟨v, v, rfl, rfl, .refl v⟩

theorem Alike.of_eq {r q : Record} (h : r = q) : Alike defers r q := h ▸ .refl r

theorem Alike.read {r q : Record} (h : Alike defers r q) (k : String) :
    (read r k).Alike defers (read q k) := by
  unfold Record.read
  obtain ⟨hr, hq⟩ | ⟨v, u, hr, hq, hv⟩ := h k
  · rw [hr, hq]
    exact .refl _
  · rw [hr, hq]
    exact hv

theorem Alike.insert {r q : Record} (h : Alike defers r q) (k : String) {v u : Value}
    (hv : v.Alike defers u) : Alike defers (insert r k v) (insert q k u) := by
  intro l
  rw [field?_insert, field?_insert]
  split
  · exact .inr ⟨v, u, rfl, rfl, hv⟩
  · exact h l

end Record

end ResumableTemplates
