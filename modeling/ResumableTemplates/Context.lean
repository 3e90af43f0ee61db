import ResumableTemplates.Library

/-!
Contexts: what one render after another shares besides the templates. A context has a lookup and a
limit on how deep calls nest, and keeps count of the calls under way.
-/
namespace ResumableTemplates

structure Context where
  lookup : Library → Lookup
  maxDepth : Nat
  depth : Nat
  holdsSink : Bool
  lookups : Nat

namespace Context

def defaultMaxDepth : Nat := 512

def of (lookup : Library → Lookup) (maxDepth : Nat) : Context := ⟨lookup, maxDepth, 0, false, 0⟩

def enter (c : Context) (callee : String) : Except RenderError Context :=
  if c.maxDepth ≤ c.depth then .error (.callDepthExceeded callee c.maxDepth)
  else .ok { c with depth := c.depth + 1 }

def leave (c : Context) : Context := { c with depth := c.depth - 1 }

def hold (c : Context) : Context := { c with holdsSink := true }

def takeHold (c : Context) : Bool × Context := (c.holdsSink, { c with holdsSink := false })

def template (l : Library) (c : Context) (name : String) :
    Except RenderError TemplateRef × Context :=
  let found := match (c.lookup l).template? name with
    | some t => .ok t
    | none => .error (.templateNotFound name)
  (found, { c with lookups := c.lookups + 1 })

def element (l : Library) (c : Context) (table : String) (id : UInt64) :
    Except RenderError String :=
  match (c.lookup l).element? table id with
  | some m => .ok m
  | none => .error (.metadataNotFound table id)

end Context

end ResumableTemplates
