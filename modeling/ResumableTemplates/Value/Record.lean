import ResumableTemplates.Value.Basic

/-!
Records: fields in ascending order of their names, each name once. Main statement: a write changes
what is read at its name and nowhere else.
-/
namespace ResumableTemplates

abbrev Record := List (String × Value)

namespace Record

def field? : Record → String → Option Value
  | [], _ => none
  | (l, v) :: r, k => if l = k then some v else field? r k

def insert : Record → String → Value → Record
  | [], k, v => [(k, v)]
  | (l, w) :: r, k, v =>
    if k < l then (k, v) :: (l, w) :: r
    else if l = k then (k, v) :: r
    else (l, w) :: insert r k v

def ofList (fields : List (String × Value)) : Record :=
  fields.foldl (fun r f => insert r f.1 f.2) []

def read (r : Record) (k : String) : Value := (field? r k).getD .null

@[simp] theorem field?_insert (r : Record) (k l : String) (v : Value) :
    field? (insert r k v) l = if l = k then some v else field? r l := by
  induction r with
  | nil => grind [insert, field?]
  | cons f r ih => grind [insert, field?]

end Record

end ResumableTemplates
