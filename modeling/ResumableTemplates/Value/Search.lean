import ResumableTemplates.Value.Basic
import Std.Data.HashMap

/-!
Searches through values. A value may have the same part in many places, and walked place by place it
can be far larger than what is stored of it. A search walks each stored part once: it keeps the
parts found clear under the place where they are stored. Main statement: it answers what a walk of
all places does.
-/
namespace ResumableTemplates

namespace Value

structure ClearOf (t : TemplateRef) where
  value : Value
  isClear : value.mentions t = false

/-- The parts found clear so far, by where they are stored. Which ones they are does not show. -/
abbrev Cleared (t : TemplateRef) := Squash (Std.HashMap USize (ClearOf t))

structure Search (t : TemplateRef) (answer : Bool) where
  found : Bool
  isAnswer : found = answer
  cleared : Cleared t

instance : Subsingleton (Search t answer) where
  allEq := fun ⟨f, hf, c⟩ ⟨g, hg, d⟩ => by
    subst hf hg
    rw [Subsingleton.elim c d]

def searchOnce (t : TemplateRef) (v : Value) (cleared : Cleared t)
    (search : Cleared t → Search t (v.mentions t)) : Search t (v.mentions t) :=
  withPtrAddr v (fun place => cleared.lift fun known =>
    match known[place]? with
    | some c =>
      if h : withPtrEq v c.value (fun _ => v.mentions t == c.value.mentions t)
          (fun h => by simp [h]) = true then
        ⟨false, ((beq_iff_eq.1 h).trans c.isClear).symm, .mk known⟩
      else search (.mk known)
    | none =>
      match search (.mk known) with
      | ⟨true, h, cleared⟩ => ⟨true, h, cleared⟩
      | ⟨false, h, cleared⟩ => ⟨false, h, cleared.lift fun known =>
          .mk (known.insert place ⟨v, h.symm⟩)⟩) fun _ _ => Subsingleton.elim _ _

mutual

def search (t : TemplateRef) : (v : Value) → Cleared t → Search t (v.mentions t)
  | list items, c => searchOnce t (list items) c fun c =>
    let s := searchAny t items c
    ⟨s.found, by rw [s.isAnswer, mentions], s.cleared⟩
  | record fields, c => searchOnce t (record fields) c fun c =>
    let s := searchField t fields c
    ⟨s.found, by rw [s.isAnswer, mentions], s.cleared⟩
  | v, c => ⟨v.mentions t, rfl, c⟩

def searchAny (t : TemplateRef) : (vs : List Value) → Cleared t → Search t (mentionsAny t vs)
  | [], c => ⟨false, by rw [mentionsAny], c⟩
  | v :: vs, c =>
    match search t v c with
    | ⟨true, h, c⟩ => ⟨true, by rw [mentionsAny, ← h, Bool.true_or], c⟩
    | ⟨false, h, c⟩ =>
      let s := searchAny t vs c
      ⟨s.found, by rw [mentionsAny, ← h, Bool.false_or, s.isAnswer], s.cleared⟩

def searchField (t : TemplateRef) :
    (fs : List (String × Value)) → Cleared t → Search t (mentionsField t fs)
  | [], c => ⟨false, by rw [mentionsField], c⟩
  | (_, v) :: fs, c =>
    match search t v c with
    | ⟨true, h, c⟩ => ⟨true, by rw [mentionsField, ← h, Bool.true_or], c⟩
    | ⟨false, h, c⟩ =>
      let s := searchField t fs c
      ⟨s.found, by rw [mentionsField, ← h, Bool.false_or, s.isAnswer], s.cleared⟩

end

def keeps (t : TemplateRef) (v : Value) : Bool := (search t v (.mk ∅)).found

def fieldsKeep (t : TemplateRef) (fields : List (String × Value)) : Bool :=
  (searchField t fields (.mk ∅)).found

@[simp] theorem keeps_eq (t : TemplateRef) (v : Value) : v.keeps t = v.mentions t :=
  (search t v (.mk ∅)).isAnswer

@[simp] theorem fieldsKeep_eq (t : TemplateRef) (fields : List (String × Value)) :
    fieldsKeep t fields = mentionsField t fields :=
  (searchField t fields (.mk ∅)).isAnswer

end Value

end ResumableTemplates
