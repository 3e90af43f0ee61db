import ResumableTemplates.Workspace.Outcome

/-!
Renders in a workspace. Each reads the workspace as it stands and leaves its changes there: those of
the context, of the sink, of the providers and of the sites.
-/
namespace ResumableTemplates

structure Request where
  template : TemplateRef
  params : Record
  injected : Record
  context : Nat

structure Report where
  result : Except RenderError OutcomeView
  sink : Sink
  depth : Nat

def Report.isPaused (r : Report) : Bool :=
  r.result.toOption.any fun
    | .suspended .. => true
    | .done => false

structure Completion where
  result : Except RenderError (Option Nat)
  sink : Sink
  depth : Nat

namespace Workspace

def env (w : Workspace) (c : Context) (injected : Record) : Env where
  library := w.library
  lookup := c.lookup w.library
  maxDepth := c.maxDepth
  injected := injected
  isReady := w.isReady
  isAlive := w.isAlive
  isHeld := w.isHeld

def stateOf (w : Workspace) (c : Context) (sink : Sink) : RenderState where
  sink := sink
  capture := none
  depth := c.depth
  holdsSink := c.holdsSink
  bindings := w.bindings
  forces := w.forces
  cells := w.cells
  events := []

def contextAfter (c : Context) (s : RenderState) : Context :=
  let lookups := s.events.countP fun
    | .lookup .. => true
    | _ => false
  { c with depth := s.depth, holdsSink := s.holdsSink, lookups := c.lookups + lookups }

def probedIn (s : RenderState) : List ProbeCall :=
  s.events.reverse.filterMap fun
    | .probe name params injected => some ⟨name, params, injected⟩
    | _ => none

def after (w : Workspace) (context : Nat) (s : RenderState) : Workspace :=
  { w.onContext context (contextAfter · s) with
    bindings := s.bindings
    forces := s.forces
    cells := s.cells
    probed := w.probed ++ probedIn s }

def runOn (w : Workspace) (q : Request) (sink : Sink) (r : Env → Render α) :
    Option (Except RenderError α × Sink × Nat × Workspace) := do
  let c ← w.contexts[q.context]?
  let (a, s) := Render.result (w.library.nameOf q.template) (r (w.env c q.injected))
    (w.stateOf c sink)
  return (a, s.sink, s.depth, w.after q.context s)

def runInto (w : Workspace) (q : Request) (sink : String) (r : Env → Render α) :
    Option (Except RenderError α × Sink × Nat × Workspace) := do
  let (a, s, depth, w) ← w.runOn q (← w.sinks.find? sink) r
  return (a, s, depth, { w with sinks := w.sinks.insert sink s })

/-- One call of a render or a resume. If it does not fail and there is a name for its outcome, that
is kept, and what an earlier outcome of the name has saved is lost. -/
def activate (w : Workspace) (q : Request) (sink : String) (name : Option String)
    (r : Env → Render Outcome) : Option (Except RenderError Outcome × Report × Workspace) := do
  let (a, s, depth, w) ← w.runInto q sink r
  let w := match a, name with
    | .ok o, some n => { w with outcomes := w.outcomes.insert n o }
    | _, _ => w
  return (a, ⟨a.map w.view, s, depth⟩, w.collect a.toOption.toList)

def render (w : Workspace) (q : Request) (sink : String) (name : Option String) :
    Option (Report × Workspace) := do
  let (_, r, w) ← w.activate q sink name fun env => .start env q.template q.params
  return (r, w.collect [])

def resume (w : Workspace) (q : Request) (sink source : String) (name : Option String) :
    Option (Report × Workspace) := do
  let o ← w.outcomes.find? source
  let (_, r, w) ← w.activate q sink name fun env => .resume env q.template q.params o
  return (r, w.collect [])

def drive (w : Workspace) (q : Request) (sink : String) (name : Option String) :
    (fuel : Nat) → Option Outcome → Option (List Report × Workspace)
  | 0, _ => return ([], w)
  | fuel + 1, o => do
    let (a, r, w) ← w.activate q sink name fun env =>
      match o with
      | none => .start env q.template q.params
      | some o => .resume env q.template q.params o
    match a with
    | .ok (.suspended s) =>
      let (rs, w) ← w.drive q sink name fuel (some (.suspended s))
      return (r :: rs, w)
    | _ => return ([r], w)

def maxCalls : Nat := 65

def run (w : Workspace) (q : Request) (sink : String) (name : Option String) :
    Option (List Report × Workspace) := do
  let (rs, w) ← w.drive q sink name maxCalls none
  return (rs, w.collect [])

def complete (w : Workspace) (q : Request) (sink : String) : Option (Completion × Workspace) := do
  let (a, s, depth, w) ← w.runInto q sink fun env => .complete env q.template q.params
  return (⟨a, s, depth⟩, w.collect [])

def renderToBuffer (w : Workspace) (q : Request) : Option (Completion × Workspace) := do
  let (a, s, depth, w) ← w.runOn q (.buffer "") fun env => .complete env q.template q.params
  return (⟨a, s, depth⟩, w.collect [])

end Workspace

end ResumableTemplates
