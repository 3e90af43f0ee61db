import ResumableTemplates.Unit

/-!
The library of all templates there are: compiled units, templates supplied by the embedding program,
and the registry of loaded units, of which a later one hides an earlier one name by name.
-/
namespace ResumableTemplates

inductive HostTemplate
  | probe (name : String)
  | parts (name : String) (texts : List String)

def HostTemplate.name : HostTemplate → String
  | probe n | parts n _ => n

structure Library where
  units : Array CompiledUnit
  hosts : Array HostTemplate
  loaded : List Nat

namespace Library

def empty : Library := ⟨#[], #[], []⟩

def compiled? (l : Library) (unit : Nat) (name : String) : Option CompiledTemplate :=
  (l.units[unit]?).bind (·.template? name)

def nameOf (l : Library) : TemplateRef → String
  | .compiled _ name => name
  | .host i => ((l.hosts[i]?).map (·.name)).getD ""

def firstLoaded? (l : Library) (f : Nat → CompiledUnit → Option α) : Option α :=
  l.loaded.findSome? fun i => (l.units[i]?).bind (f i)

def registered? (l : Library) (name : String) : Option TemplateRef :=
  l.firstLoaded? fun i u => (u.template? name).map fun _ => .compiled i name

def registeredMetadata? (l : Library) (name : String) : Option Metadata :=
  l.firstLoaded? fun _ u => u.metadata? name

def registeredElement? (l : Library) (table : String) (id : UInt64) : Option String :=
  l.firstLoaded? fun _ u => u.element? table id

def registeredVariant? (l : Library) (name variant : String) : Option TemplateRef :=
  l.firstLoaded? fun i u => (u.delegate? name variant).map (.compiled i)

/-- The implementation of that variant, else the default one. -/
def registeredDelegate? (l : Library) (name variant : String) : Option TemplateRef :=
  (l.registeredVariant? name variant).or (l.registeredVariant? name "")

end Library

/-- Where a render finds what its unit does not have. -/
structure Lookup where
  template? : (name : String) → Option TemplateRef
  delegate? : (name variant : String) → Option TemplateRef
  element? : (table : String) → (id : UInt64) → Option String
  keeps : TemplateRef → Bool

namespace Lookup

def none : Lookup := ⟨fun _ => .none, fun _ _ => .none, fun _ _ => .none, fun _ => false⟩

def registry (l : Library) : Lookup :=
  ⟨l.registered?, l.registeredDelegate?, l.registeredElement?, fun _ => false⟩

def fixed (templates : Table String TemplateRef) (delegates : Table (String × String) TemplateRef)
    (elements : Table (String × UInt64) String) : Lookup where
  template? := templates.find?
  delegate? name variant := (delegates.find? (name, variant)).or (delegates.find? (name, ""))
  element? table id := elements.find? (table, id)
  keeps t := templates.values.contains t || delegates.values.contains t

end Lookup

end ResumableTemplates
