/-!
Tables: finite maps that keep their entries in the order in which the keys came. Main statement:
a write changes what is read at its key and nowhere else.
-/
namespace ResumableTemplates

structure Table (κ : Type u) (α : Type v) where
  entries : List (κ × α)

namespace Table

variable {κ : Type u} {α : Type v}

def empty : Table κ α := ⟨[]⟩

instance : Inhabited (Table κ α) := ⟨empty⟩

variable [DecidableEq κ]

def find? (t : Table κ α) (k : κ) : Option α :=
  (t.entries.find? (·.1 = k)).map (·.2)

def contains (t : Table κ α) (k : κ) : Bool := (t.find? k).isSome

/-- Entries with the value at `k` replaced, or with a new entry at the end. -/
def write (k : κ) (a : α) : List (κ × α) → List (κ × α)
  | [] => [(k, a)]
  | e :: es => if e.1 = k then (k, a) :: es else e :: write k a es

def insert (t : Table κ α) (k : κ) (a : α) : Table κ α := ⟨write k a t.entries⟩

def erase (t : Table κ α) (k : κ) : Table κ α := ⟨t.entries.filter (·.1 ≠ k)⟩

def ofList (es : List (κ × α)) : Table κ α := es.foldl (fun t e => t.insert e.1 e.2) empty

def size (t : Table κ α) : Nat := t.entries.length

def values (t : Table κ α) : List α := t.entries.map (·.2)

omit [DecidableEq κ] in
@[simp] theorem entries_empty : (empty : Table κ α).entries = [] := rfl

@[simp] theorem find?_empty (k : κ) : (empty : Table κ α).find? k = none := rfl

@[simp] theorem find?_insert (t : Table κ α) (k l : κ) (a : α) :
    (t.insert k a).find? l = if l = k then some a else t.find? l := by
  obtain ⟨es⟩ := t
  simp only [insert, find?]
  induction es with
  | nil => by_cases h : l = k <;> simp [write, h, eq_comm]
  | cons e es ih =>
    by_cases hk : e.1 = k <;> by_cases hl : e.1 = l <;> by_cases h : l = k <;>
      simp_all [write, eq_comm]

@[simp] theorem find?_erase (t : Table κ α) (k l : κ) :
    (t.erase k).find? l = if l = k then none else t.find? l := by
  obtain ⟨es⟩ := t
  simp only [erase, find?]
  induction es with
  | nil => simp
  | cons e es ih =>
    by_cases hk : e.1 = k <;> by_cases hl : e.1 = l <;> by_cases h : l = k <;>
      simp_all

end Table

end ResumableTemplates
