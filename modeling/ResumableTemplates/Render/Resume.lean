import ResumableTemplates.Render.Run

/-!
Renders as a caller sees them. A render starts afresh; it is resumed from an outcome of its own
template, with what that has saved, and only once, whichever copy of the outcome is used. A refusal
comes before anything is changed.
-/
namespace ResumableTemplates

namespace Render

def suspend (frames : Frames) (reason : PauseReason) : Render Outcome := modifyGet fun s =>
  (.suspended ⟨frames.outer.template, reason, frames.depth, s.cells.size⟩,
    { s with cells := s.cells.push (some frames) })

def takeSaved (cell : Nat) : Render Frames := do
  match ((← get).cells[cell]?).join with
  | none => fail .doubleResume
  | some f =>
    modify fun s => { s with cells := s.cells.setIfInBounds cell none }
    return f

def outermost (env : Env) (t : TemplateRef) (frames : Option Frames) (params : Record) :
    Render Outcome := do
  let levels := env.maxDepth - (← get).depth
  match ← runWithin env levels t frames params fun r => r = t with
  | .done => return .done
  | .paused f reason => suspend f reason

def start (env : Env) (t : TemplateRef) (params : Record) : Render Outcome := do
  let _ ← takeHold
  outermost env t none params

def resume (env : Env) (t : TemplateRef) (params : Record) : Outcome → Render Outcome
  | .done => fail .alreadyComplete
  | .suspended s => do
    let name := env.library.nameOf t
    if s.template ≠ name then fail (.wrongTemplate s.template name)
    outermost env t (some (← takeSaved s.cell)) params

/-- Resumes a render until it is over and gives the number of pauses, of which `paused` came before.
It gives up when it pauses once more than `fuel` times. -/
def finish (env : Env) (t : TemplateRef) (params : Record) :
    (fuel paused : Nat) → Outcome → Render (Option Nat)
  | _, paused, .done => return some paused
  | 0, _, .suspended _ => return none
  | fuel + 1, paused, .suspended s => do
    finish env t params fuel (paused + 1) (← resume env t params (.suspended s))

def maxResumes : Nat := 100000

def complete (env : Env) (t : TemplateRef) (params : Record) : Render (Option Nat) := do
  finish env t params maxResumes 0 (← start env t params)

def result (template : String) (r : Render α) (s : RenderState) :
    Except RenderError α × RenderState :=
  match r s with
  | (.ok a, t) => (.ok a, t)
  | (.error (.failure e), t) => (.error e, t)
  | (.error (.pause _), t) => (.error (.internal template .unsavedPause), t)

end Render

end ResumableTemplates
