import ResumableTemplates.Content
import ResumableTemplates.Number.Shortest
import ResumableTemplates.TemplateRef

/-!
Values: what expressions yield and what records hold. A lazy value stands for one that a provider
will yield; how often the provider puts it off is not part of the value.
-/
namespace ResumableTemplates

structure VisualElement where
  id : UInt64
  name : String
  metadata : Option String
deriving DecidableEq

inductive Value
  | null
  | bool (b : Bool)
  | int (n : Int64)
  | float (x : Float)
  | str (s : String)
  | list (items : List Value)
  | record (fields : List (String × Value))
  | content (kind : ContentKind) (text : String)
  | template (name : String) (target : TemplateRef)
  | element (e : VisualElement)
  /-- What provider `id` yields once it is ready, which may again be lazy. -/
  | lazy (id : Nat) (yields : Value)

namespace Value

instance : Inhabited Value := ⟨null⟩

def isNull : Value → Bool
  | null => true
  | _ => false

def isTruthy : Value → Bool
  | null => false
  | bool b => b
  | int n => n != 0
  | float x => x != 0 && !x.isNaN
  | str s => s != ""
  | content _ s => s != ""
  | list _ | record _ | template .. | element _ | lazy .. => true

def typeName : Value → String
  | null => "null"
  | bool _ => "bool"
  | int _ => "int"
  | float _ => "float"
  | str _ => "string"
  | list _ => "list"
  | record _ => "record"
  | content .. => "content"
  | template .. => "template"
  | element _ => "ve"
  | lazy .. => "lazy"

def floatOf (n : Int64) : Float := .ofInt n.toInt

def asFloat? : Value → Option Float
  | int n => some (floatOf n)
  | float x => some x
  | _ => none

def asText? : Value → Option String
  | str s => some s
  | content _ s => some s
  | _ => none

mutual

def display : Value → String
  | null => "null"
  | bool b => if b then "true" else "false"
  | int n => toString n.toInt
  | float x => floatText x
  | str s => s
  | list items => "[" ++ ", ".intercalate (displayAll items) ++ "]"
  | record fields => "\x7b" ++ ", ".intercalate (displayFields fields) ++ "\x7d"
  | content _ s => s
  | template name _ => "** " ++ name ++ " **"
  | element e => "ve(" ++ e.name ++ ")"
  | lazy .. => "<pending>"

def displayAll : List Value → List String
  | [] => []
  | v :: vs => v.display :: displayAll vs

def displayFields : List (String × Value) → List String
  | [] => []
  | (k, v) :: fs => (k ++ ": " ++ v.display) :: displayFields fs

end

mutual

def mentions (t : TemplateRef) : Value → Bool
  | list items => mentionsAny t items
  | record fields => mentionsField t fields
  | template _ r => r = t
  | _ => false

def mentionsAny (t : TemplateRef) : List Value → Bool
  | [] => false
  | v :: vs => v.mentions t || mentionsAny t vs

def mentionsField (t : TemplateRef) : List (String × Value) → Bool
  | [] => false
  | (_, v) :: fs => v.mentions t || mentionsField t fs

end

mutual

def longest : Value → Nat
  | list items => max items.length (longestAmong items)
  | record fields => longestField fields
  | lazy _ v => v.longest
  | _ => 0

def longestAmong : List Value → Nat
  | [] => 0
  | v :: vs => max v.longest (longestAmong vs)

def longestField : List (String × Value) → Nat
  | [] => 0
  | (_, v) :: fs => max v.longest (longestField fs)

end

end Value

end ResumableTemplates
