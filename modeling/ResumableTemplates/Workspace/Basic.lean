import ResumableTemplates.Context
import ResumableTemplates.Render.Resume

/-!
Workspaces: what an embedding program keeps between renders, under names of its own. A unit is there
as long as a name or the registry keeps it; a template that is kept does not keep its unit.
-/
namespace ResumableTemplates

structure Provider where
  name : String
  yields : Value
  delay : Nat

structure ProbeCall where
  name : String
  params : Record
  injected : Record

structure Workspace where
  library : Library
  units : Table String Nat
  templates : Table String TemplateRef
  contexts : Array Context
  contextNames : Table String Nat
  entered : List Nat
  sinks : Table String Sink
  records : Table String Record
  outcomes : Table String Outcome
  providers : Array Provider
  forces : Table Nat Nat
  bindings : Table Site Binding
  cells : Array (Option Frames)
  probed : List ProbeCall

namespace Workspace

def empty : Workspace :=
  ⟨.empty, .empty, .empty, #[], .empty, [], .empty, .empty, .empty, #[], .empty, .empty, #[], []⟩

instance : Inhabited Workspace := ⟨empty⟩

def addUnit (w : Workspace) (name : String) (u : CompiledUnit) : Workspace :=
  { w with
    library := { w.library with units := w.library.units.push u }
    units := w.units.insert name w.library.units.size }

def dropUnit (w : Workspace) (name : String) : Bool × Workspace :=
  (w.units.contains name, { w with units := w.units.erase name })

def unit? (w : Workspace) (name : String) : Option CompiledUnit :=
  (w.units.find? name).bind (w.library.units[·]?)

def unitTemplate? (w : Workspace) (unit name : String) : Option TemplateRef := do
  let i ← w.units.find? unit
  let _ ← w.library.compiled? i name
  return .compiled i name

def compiled? (w : Workspace) : TemplateRef → Option CompiledTemplate
  | .compiled unit name => w.library.compiled? unit name
  | .host _ => none

def take (w : Workspace) (name : String) (t : TemplateRef) : Workspace :=
  { w with templates := w.templates.insert name t }

def supply (w : Workspace) (name : String) (h : HostTemplate) : Workspace :=
  { w with library := { w.library with hosts := w.library.hosts.push h } }.take name
    (.host w.library.hosts.size)

def load (w : Workspace) (unit : Nat) : Workspace :=
  { w with library := { w.library with loaded := unit :: w.library.loaded } }

def addContext (w : Workspace) (name : String) (c : Context) : Workspace :=
  { w with
    contexts := w.contexts.push c
    contextNames := w.contextNames.insert name w.contexts.size }

def onContext (w : Workspace) (i : Nat) (f : Context → Context) : Workspace :=
  { w with contexts := w.contexts.modify i f }

def depth (w : Workspace) (i : Nat) : Nat := ((w.contexts[i]?).map (·.depth)).getD 0

def enter (w : Workspace) (i : Nat) (c : Context) (callee : String) :
    Except RenderError Workspace := do
  let c ← c.enter callee
  return { w.onContext i fun _ => c with entered := i :: w.entered }

def exit (w : Workspace) : Workspace :=
  match w.entered with
  | [] => w
  | i :: rest => { w.onContext i (·.leave) with entered := rest }

def declare (w : Workspace) (p : Provider) : Workspace :=
  { w with providers := w.providers.push p }

def lazy? (w : Workspace) (name : String) : Option Value := do
  let i ← (List.range w.providers.size).reverse.find? fun i =>
    (w.providers[i]?).any (·.name = name)
  let p ← w.providers[i]?
  return .lazy i p.yields

def providerName (w : Workspace) (i : Nat) : String := ((w.providers[i]?).map (·.name)).getD ""

def isReady (w : Workspace) (i asked : Nat) : Bool :=
  ((w.providers[i]?).map (·.delay)).getD 0 ≤ asked

def ask (w : Workspace) (provider : Nat) : Option Value × Workspace :=
  let (isReady, forces) := askProvider (w.isReady provider) provider w.forces
  (if isReady then (w.providers[provider]?).map (·.yields) else none, { w with forces := forces })

def forceCounts (w : Workspace) : List (String × Nat) :=
  w.providers.toList.zipIdx.map fun (p, i) => (p.name, (w.forces.find? i).getD 0)

def takeProbed (w : Workspace) : List ProbeCall × Workspace := (w.probed, { w with probed := [] })

def isAlive (w : Workspace) (unit : Nat) : Bool :=
  w.units.values.contains unit || w.library.loaded.contains unit

def isHeld (w : Workspace) (t : TemplateRef) : Bool :=
  w.templates.values.contains t ||
    w.records.values.any (Value.fieldsKeep t ·) ||
    w.providers.any (·.yields.keeps t) ||
    w.contexts.any (fun c => (c.lookup w.library).keeps t) ||
    w.probed.any fun p => Value.fieldsKeep t p.params || Value.fieldsKeep t p.injected

/-- Empties the cells that no outcome leads to, neither one that is kept nor one of the others. -/
def collect (w : Workspace) (others : List Outcome) : Workspace :=
  let inUse := (w.outcomes.values ++ others).filterMap Outcome.cell?
  { w with cells := w.cells.mapIdx fun i c => if i ∈ inUse then c else none }

end Workspace

end ResumableTemplates
