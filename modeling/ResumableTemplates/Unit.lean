import ResumableTemplates.Compile.Template
import ResumableTemplates.Metadata
import ResumableTemplates.Table

/-!
Units: templates compiled together, which find each other without a lookup, with the metadata
tables that their visual elements are described in.
-/
namespace ResumableTemplates

abbrev ElementTable := Table UInt64 String

structure CompileOptions where
  joins : Bool := true

structure CompiledUnit where
  templates : List CompiledTemplate
  metadata : List Metadata
  tables : Table String ElementTable

namespace CompiledUnit

def compileAll (joins : Bool) :
    (seen : List String) → List (TemplateFile × Template) →
      Except CompileError (List (CompiledTemplate × Metadata))
  | _, [] => .ok []
  | seen, (f, t) :: rest =>
    if t.name ∈ seen then .error (.duplicateTemplate t.name)
    else do
      let c ← t.compile joins
      let cs ← compileAll joins (t.name :: seen) rest
      return (c, .of f t) :: cs

def compile (o : CompileOptions) (files : List TemplateFile) (tables : Table String ElementTable) :
    Except CompileError CompiledUnit := do
  let ts ← compileAll o.joins [] (files.flatMap fun f => f.templates.map (f, ·))
  return ⟨ts.map (·.1), ts.map (·.2), tables⟩

def template? (u : CompiledUnit) (name : String) : Option CompiledTemplate :=
  u.templates.find? (·.name = name)

def metadata? (u : CompiledUnit) (name : String) : Option Metadata :=
  u.metadata.find? (·.name = name)

def element? (u : CompiledUnit) (table : String) (id : UInt64) : Option String :=
  (u.tables.find? table).bind (·.find? id)

def delegate? (u : CompiledUnit) (name variant : String) : Option String :=
  (u.metadata.find? fun m => m.delegate.name = name && m.delegate.variant = variant).map (·.name)

end CompiledUnit

end ResumableTemplates
