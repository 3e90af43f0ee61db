import ResumableTemplates.Render.Activation

/-! Properties of values that pass from parts to wholes and back. An operator that is applied to
values of such a property yields one, so evaluation never leaves the property. Two of them matter:
the length of the lists in a value, and the providers that its evaluation may ask. -/
namespace ResumableTemplates

namespace Value

def isAtom : Value → Bool
  | list _ | record _ | lazy .. => false
  | _ => true

/-- A property that a value shares with its parts; `room` holds of the lengths a list may have. -/
structure Closed (room : Nat → Prop) (P : Value → Prop) : Prop where
  atom : ∀ {v}, v.isAtom → P v
  list : ∀ {vs}, room vs.length → (∀ v ∈ vs, P v) → P (.list vs)
  item : ∀ {vs v}, P (.list vs) → v ∈ vs → P v
  record : ∀ {r}, (∀ f ∈ r, P f.2) → P (.record r)
  field : ∀ {r f}, P (.record r) → f ∈ r → P f.2
  yields : ∀ {i v}, P (.lazy i v) → P v

theorem isAtom_of_ofExact {op : String} {n : Int} {v : Value} (h : ofExact op n = .ok v) :
    v.isAtom := by
  unfold ofExact at h
  split at h <;> cases h
  rfl

theorem isAtom_of_onFloats {op : BinaryOp} {f : Float → Float → Float} {a b v : Value}
    (h : onFloats op f a b = .ok v) : v.isAtom := by
  unfold onFloats at h
  split at h <;> cases h
  rfl

theorem isAtom_of_arithmetic {op : BinaryOp} {g : Int → Int → Int} {f : Float → Float → Float}
    {a b v : Value} (h : arithmetic op g f a b = .ok v) : v.isAtom := by
  unfold arithmetic at h
  split at h
  · exact isAtom_of_ofExact h
  · exact isAtom_of_onFloats h

theorem isAtom_of_comparison {op : BinaryOp} {p : Ordering → Bool} {a b v : Value}
    (h : comparison op p a b = .ok v) : v.isAtom := by
  unfold comparison at h
  split at h <;> cases h
  rfl

theorem isAtom_of_add {a b v : Value} (h : add a b = .ok v) : v.isAtom := by
  unfold add at h
  split at h
  · cases h; rfl
  · exact isAtom_of_arithmetic h

theorem isAtom_of_modulo {a b v : Value} (h : modulo a b = .ok v) : v.isAtom := by
  unfold modulo at h
  split at h
  · split at h
    · cases h
    · split at h
      · exact isAtom_of_ofExact h
      · cases h
  · exact isAtom_of_onFloats h

theorem isAtom_of_unary {op : UnaryOp} {a v : Value} (h : unary op a = .ok v) : v.isAtom := by
  unfold unary at h
  split at h
  · cases h; rfl
  · exact isAtom_of_ofExact h
  · cases h; rfl
  · cases h

theorem isAtom_of_length {a v : Value} (h : length a = .ok v) : v.isAtom := by
  unfold length at h
  split at h
  · exact isAtom_of_ofExact h
  · exact isAtom_of_ofExact h
  · split at h
    · exact isAtom_of_ofExact h
    · cases h

theorem isAtom_of_apply {f : Builtin} {vs : List Value} {v : Value} (h : apply f vs = .ok v) :
    v.isAtom := by
  unfold apply at h
  split at h
  · split at h
    · exact isAtom_of_length h
    · cases h; rfl
    · cases h; rfl
  · cases h

end Value

namespace Record

def All (P : Value → Prop) (r : Record) : Prop := ∀ f ∈ r, P f.2

variable {P : Value → Prop}

theorem All.insert {r : Record} (h : All P r) (k : String) {v : Value} (hv : P v) :
    All P (insert r k v) := by
  induction r with
  | nil => simpa [Record.insert, All] using hv
  | cons f r ih =>
    obtain ⟨l, u⟩ := f
    have hu : P u := h (l, u) List.mem_cons_self
    have hr : All P r := fun g hg => h g (List.mem_cons_of_mem _ hg)
    unfold Record.insert
    split
    · exact fun g hg => (List.mem_cons.1 hg).elim (fun e => e ▸ hv) (h g)
    · split
      · exact fun g hg => (List.mem_cons.1 hg).elim (fun e => e ▸ hv) (hr g)
      · exact fun g hg => (List.mem_cons.1 hg).elim (fun e => e ▸ hu) (ih hr g)

theorem All.ofList {fs : List (String × Value)} (h : ∀ f ∈ fs, P f.2) : All P (ofList fs) := by
  suffices H : ∀ r, All P r → All P (fs.foldl (fun r f => Record.insert r f.1 f.2) r) from
    H [] (fun _ hf => (by cases hf))
  induction fs with
  | nil => exact fun r hr => hr
  | cons f fs ih =>
    intro r hr
    exact ih (fun g hg => h g (List.mem_cons_of_mem _ hg)) _
      (hr.insert f.1 (h f List.mem_cons_self))

theorem All.field? {r : Record} (h : All P r) {k : String} {v : Value} (hv : field? r k = some v) :
    P v := by
  induction r with
  | nil => cases hv
  | cons f r ih =>
    obtain ⟨l, u⟩ := f
    have hu : P u := h (l, u) List.mem_cons_self
    unfold Record.field? at hv
    split at hv
    · cases hv; exact hu
    · exact ih (fun g hg => h g (List.mem_cons_of_mem _ hg)) hv

theorem All.read {r : Record} (h : All P r) (hn : P .null) (k : String) : P (read r k) := by
  unfold Record.read
  cases hk : Record.field? r k with
  | none => exact hn
  | some v => exact h.field? hk

end Record

namespace Value.Closed

variable {room : Nat → Prop} {P : Value → Prop}

theorem decidedBy? (h : Closed room P) {op : BinaryOp} {a v : Value} (ha : P a)
    (hv : op.decidedBy? a = some v) : P v := by
  cases op <;> simp only [BinaryOp.decidedBy?, reduceCtorEq] at hv <;> split at hv <;> cases hv
  · exact h.atom rfl
  · exact h.atom rfl
  · exact ha

theorem binary (h : Closed room P) {op : BinaryOp} {a b v : Value} (ha : P a) (hb : P b)
    (hv : Value.binary op a b = .ok v) : P v := by
  cases op with
  | add => exact h.atom (isAtom_of_add hv)
  | sub => exact h.atom (isAtom_of_arithmetic hv)
  | mul => exact h.atom (isAtom_of_arithmetic hv)
  | div => exact h.atom (isAtom_of_onFloats hv)
  | mod => exact h.atom (isAtom_of_modulo hv)
  | lt => exact h.atom (isAtom_of_comparison hv)
  | le => exact h.atom (isAtom_of_comparison hv)
  | gt => exact h.atom (isAtom_of_comparison hv)
  | ge => exact h.atom (isAtom_of_comparison hv)
  | eq => cases hv; exact h.atom rfl
  | ne => cases hv; exact h.atom rfl
  | and => cases hv; exact h.atom rfl
  | or => cases hv; exact h.atom rfl
  | orElse =>
    cases hv
    split
    · exact hb
    · exact ha

theorem fieldOf (h : Closed room P) {a v : Value} {name : String} {nullSafe : Bool} (ha : P a)
    (hv : a.fieldOf name nullSafe = .ok v) : P v := by
  unfold Value.fieldOf at hv
  split at hv
  · cases hv
    exact Record.All.read (fun _ hf => h.field ha hf) (h.atom rfl) _
  · split at hv <;> cases hv
    exact h.atom rfl
  · cases hv

theorem itemOf (h : Closed room P) {a k v : Value} (ha : P a) (hv : a.item k = .ok v) : P v := by
  unfold Value.item at hv
  split at hv
  · rename_i vs n
    cases hv
    split
    · exact h.atom rfl
    · cases hn : vs[n.toInt.toNat]? with
      | none => exact h.atom rfl
      | some u => exact h.item ha (List.mem_of_getElem? hn)
  · split at hv <;> cases hv
    exact Record.All.read (fun _ hf => h.field ha hf) (h.atom rfl) _
  · cases hv

end Value.Closed

namespace Value

theorem longestAmong_le_iff {n : Nat} {vs : List Value} :
    longestAmong vs ≤ n ↔ ∀ v ∈ vs, v.longest ≤ n := by
  induction vs with
  | nil => exact ⟨fun _ _ h => (by cases h), fun _ => Nat.zero_le n⟩
  | cons v vs ih => simp only [longestAmong, Nat.max_le, ih, List.forall_mem_cons]

theorem longestField_le_iff {n : Nat} {r : Record} :
    longestField r ≤ n ↔ Record.All (·.longest ≤ n) r := by
  induction r with
  | nil => exact ⟨fun _ _ h => (by cases h), fun _ => Nat.zero_le n⟩
  | cons f r ih =>
    rw [longestField, Nat.max_le, ih]
    exact (List.forall_mem_cons (p := fun f : String × Value => f.2.longest ≤ n)).symm

/-- No list in a value is longer than a bound, nor is one that is built from parts of such. -/
theorem closed_longest (longest : Nat) : Closed (· ≤ longest) (·.longest ≤ longest) where
  atom {v} h := by cases v <;> first | exact Nat.zero_le _ | cases h
  list hroom h := Nat.max_le.2 ⟨hroom, longestAmong_le_iff.2 h⟩
  item h hv := longestAmong_le_iff.1 (Nat.max_le.1 h).2 _ hv
  record h := longestField_le_iff.2 h
  field h hf := longestField_le_iff.1 h _ hf
  yields h := h

end Value

end ResumableTemplates
