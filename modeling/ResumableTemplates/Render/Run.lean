import ResumableTemplates.Render.Step

/-!
Runs of templates. An activation fills its header, puts back what was saved, and executes ops until
none is left. Its number of steps is bounded beforehand: jumps go back only to the head of a loop,
and a loop goes round once per item of a list that was there from the start or is written in the
template. Calls nest no deeper than the limit.
-/
namespace ResumableTemplates

inductive Standing
  | ended (outcome : FrameOutcome)
  | running (position : Nat) (a : Activation)

def ParamBinding.valueIn (b : ParamBinding) (injected params : Record) : Value :=
  match Record.field? (if b.isInjected then injected else params) b.name with
  | some v => if v.isNull then b.default.getD .null else v
  | none => b.default.getD .null

namespace Activation

def fillParams (injected : Record) (a : Activation) :
    List ParamBinding → Except RenderError Activation
  | [] => return a
  | b :: bs => do fillParams injected (← a.set b.slot (.value (b.valueIn injected a.params))) bs

def fillState (a : Activation) : List StateBinding → Except RenderError Activation
  | [] => return a
  | b :: bs => do fillState (← a.set b.slot (.value b.value)) bs

def start (injected : Record) (unit : Nat) (t : CompiledTemplate) (params : Record)
    (isHeld : TemplateRef → Bool) : Except RenderError Activation := do
  let locals := Array.replicate t.procedure.layout.size Local.unset
  let a ← fillParams injected ⟨unit, t, params, locals, none, isHeld⟩ t.procedure.params
  fillState a t.procedure.state

def putBack (a : Activation) : List (Nat × Local) → Except RenderError Activation
  | [] => return a
  | (slot, l) :: ls => do putBack (← a.set slot l) ls

/-- Puts back what was saved, if it fits the template, and gives the position to go on from. -/
def restore (a : Activation) (f : Frames) : Except RenderError (Nat × Activation) := do
  if f.outer.template ≠ a.template.name then a.contradiction (.foreignFrame f.outer.template)
  match a.template.procedure.points[f.outer.point]? with
  | none => a.contradiction (.unknownPoint f.outer.point)
  | some e =>
    if e.live.length ≠ f.outer.locals.length then
      a.contradiction (.savedCount f.outer.point e.live.length f.outer.locals.length)
    let a ← a.putBack (e.live.zip f.outer.locals)
    let waiting := if f.calls.isEmpty then none else some (f.outer.point, f.calls)
    return (e.position, { a with waiting := waiting })

def save (a : Activation) (point : Nat) (reason : PauseReason) (calls : List PendingCall) :
    Except RenderError FrameOutcome :=
  match a.template.procedure.points[point]? with
  | none => a.contradiction (.unknownPoint point)
  | some e =>
    .ok <| .paused ⟨⟨a.template.name, point, e.live.map (a.locals.getD · .unset)⟩, calls⟩ reason

def attempt (env : Env) (run : Runner) (a : Activation) (position : Nat) (op : Op) :
    Render Progress :=
  tryCatch (a.step env run position op) fun
    | .pause reason => return .paused reason a []
    | .failure e => Render.fail e

def execute (env : Env) (run : Runner) : (fuel : Nat) → (position : Nat) → Activation →
    Render Standing
  | 0, position, a => return .running position a
  | fuel + 1, position, a =>
    match a.template.procedure.ops[position]? with
    | none => return .ended .done
    | some op => do
      match ← a.attempt env run position op with
      | .goto position a => execute env run fuel position a
      | .paused reason a calls => return .ended (← a.save (op.point?.getD 0) reason calls)

def longestList (env : Env) (a : Activation) : Nat :=
  let ops := a.template.procedure.ops.foldl (fun n op => max n op.longest) 0
  let locals := a.locals.foldl (fun n l => max n l.longest) 0
  max (max ops locals) (Value.longestField env.injected)

def stepBound (env : Env) (a : Activation) : Nat :=
  let ops := a.template.procedure.ops
  let loops := ops.countP fun
    | .forNext .. => true
    | _ => false
  (ops.size + 1) * (a.longestList env + 2).pow loops

/-- How many ops are executed before a bound is worked out for the rest, as that takes long where
values share their parts. -/
def patience : Nat := 1 <<< 60

def finish (env : Env) (run : Runner) (position : Nat) (a : Activation) :
    Render FrameOutcome := do
  match ← a.execute env run patience position with
  | .ended o => return o
  | .running position a =>
    match ← a.execute env run (a.stepBound env) position with
    | .ended o => return o
    | .running _ a => a.contradiction .tooManySteps

end Activation

def runCompiled (env : Env) (run : Runner) (unit : Nat) (t : CompiledTemplate)
    (frames : Option Frames) (params : Record) (isHeld : TemplateRef → Bool) :
    Render FrameOutcome := do
  let a ← Activation.start env.injected unit t params isHeld
  match frames with
  | none => a.finish env run 0
  | some f =>
    let (position, a) ← a.restore f
    a.finish env run position

def runParts (name : String) : (part : Nat) → List String → Render FrameOutcome
  | _, [] => return .done
  | part, s :: ss => do
    match ← Render.poll with
    | .notReady => return .paused ⟨⟨name, part, [.value (.int 1)]⟩, []⟩ .sinkNotReady
    | .ready =>
      let _ ← Render.append s
      runParts name (part + 1) ss

def HostTemplate.run (env : Env) (h : HostTemplate) (frames : Option Frames) (params : Record) :
    Render FrameOutcome :=
  match h with
  | probe name => do
    Render.note (.probe name params env.injected)
    return .done
  | parts name texts =>
    let part := (frames.map (·.outer.point)).getD 0
    runParts name part (texts.drop part)

def runTemplate (env : Env) (run : Runner) : Runner := fun t frames params isHeld =>
  match t with
  | .compiled unit name =>
    match env.library.compiled? unit name with
    | some c => runCompiled env run unit c frames params isHeld
    | none => Render.fail (.templateNotFound name)
  | .host i =>
    match env.library.hosts[i]? with
    | some h => h.run env frames params
    | none => Render.fail (.templateNotFound "")

def runWithin (env : Env) : (levels : Nat) → Runner
  | 0 => runTemplate env fun t _ _ _ =>
    Render.fail (.callDepthExceeded (env.library.nameOf t) env.maxDepth)
  | levels + 1 => runTemplate env (runWithin env levels)

end ResumableTemplates
