import ResumableTemplates.Frame
import ResumableTemplates.Library
import ResumableTemplates.Sink

/-!
What a render reads and what it changes. A render ends well, pauses or fails; what it has changed by
then stays changed. Everything that can be seen of it from outside is one of its events.
-/
namespace ResumableTemplates

inductive SiteTarget
  | template (name : String)
  | element (table : String) (id : UInt64)
deriving DecidableEq

structure Site where
  unit : Nat
  template : String
  index : Nat
  target : SiteTarget
deriving DecidableEq

/-- What a site has found once: its template in its own unit, the metadata of its element there, or
that it has to ask the lookup. -/
inductive Binding
  | direct
  | described (metadata : String)
  | fallback
deriving DecidableEq

inductive Use
  | call | literal
deriving DecidableEq

inductive Event
  | poll (answer : Readiness)
  | append (chunk : String) (answer : Except SinkError Readiness)
  | force (provider : Nat) (isReady : Bool)
  | resolve (site : Site) (use : Use) (name : String)
  | lookup (use : Use) (name : String)
  | select (unit : Nat) (template delegate variant : String)
  | describe (table : String) (element : UInt64)
  | probe (name : String) (params injected : Record)

/-- What a render reads. -/
structure Env where
  library : Library
  lookup : Lookup
  maxDepth : Nat
  injected : Record
  isReady : (provider asked : Nat) → Bool
  isAlive : Nat → Bool
  isHeld : TemplateRef → Bool

/-- What a render changes. -/
structure RenderState where
  sink : Sink
  capture : Option String
  depth : Nat
  holdsSink : Bool
  bindings : Table Site Binding
  forces : Table Nat Nat
  cells : Array (Option Frames)
  events : List Event

def Event.chunk? : Event → Option String
  | .append chunk (.ok _) => some chunk
  | _ => none

def RenderState.chunks (s : RenderState) : List String := (s.events.filterMap Event.chunk?).reverse

inductive Stop
  | pause (reason : PauseReason)
  | failure (e : RenderError)

abbrev Render := ExceptT Stop (StateM RenderState)

def askProvider (isReady : Nat → Bool) (provider : Nat) (forces : Table Nat Nat) :
    Bool × Table Nat Nat :=
  let asked := (forces.find? provider).getD 0
  (isReady asked, forces.insert provider (asked + 1))

namespace Render

def fail (e : RenderError) : Render α := throw (.failure e)

def lift : Except RenderError α → Render α
  | .ok a => return a
  | .error e => fail e

instance : MonadLift (Except RenderError) Render := ⟨lift⟩

def ofData (r : Except DataError α) : Except RenderError α := r.mapError .data

def note (e : Event) : Render Unit := modify fun s => { s with events := e :: s.events }

def poll : Render Readiness := do
  match (← get).capture with
  | some _ => return .ready
  | none =>
    let answer ← modifyGet fun s => let (r, sink) := s.sink.poll; (r, { s with sink := sink })
    note (.poll answer)
    return answer

def append (chunk : String) : Render Readiness := do
  match (← get).capture with
  | some text =>
    modify fun s => { s with capture := some (text ++ chunk) }
    return .ready
  | none =>
    let answer ← modifyGet fun s =>
      let (r, sink) := s.sink.append chunk
      (r, { s with sink := sink })
    note (.append chunk answer)
    match answer with
    | .ok r => return r
    | .error e => fail (.sink e)

def holdSink : Render Unit := modify fun s => { s with holdsSink := true }

def takeHold : Render Bool := modifyGet fun s => (s.holdsSink, { s with holdsSink := false })

def ask (env : Env) (provider : Nat) : Render Bool := do
  let isReady ← modifyGet fun s =>
    let (isReady, forces) := askProvider (env.isReady provider) provider s.forces
    (isReady, { s with forces := forces })
  note (.force provider isReady)
  return isReady

/-- The value behind a chain of providers, or a pause at the first that is not ready. -/
def force (env : Env) : Value → Render Value
  | .lazy provider v => do
    if ← ask env provider then force env v else throw (.pause .valueNotReady)
  | v => return v

/-- Runs a call one level deeper, if there is a level left. The depth is as before afterwards,
whatever the ending. -/
def deeper (env : Env) (callee : String) (r : Render α) : Render α := do
  if env.maxDepth ≤ (← get).depth then fail (.callDepthExceeded callee env.maxDepth)
  else fun s =>
    let (a, t) := r { s with depth := s.depth + 1 }
    (a, { t with depth := t.depth - 1 })

/-- Runs with a capture in the place of the sink, and gives back its text, or nothing of it if the
run fails. -/
def capturing (text : String) (r : Render α) : Render (α × String) := fun s =>
  let (a, t) := r { s with capture := some text }
  (a.map (·, t.capture.getD ""), { t with capture := s.capture })

end Render

namespace RenderState

def mentions (t : TemplateRef) (s : RenderState) : Bool :=
  s.cells.any (·.any (·.mentions t)) ||
    s.events.any fun
      | .probe _ p i => Value.fieldsKeep t p || Value.fieldsKeep t i
      | _ => false

end RenderState

end ResumableTemplates
