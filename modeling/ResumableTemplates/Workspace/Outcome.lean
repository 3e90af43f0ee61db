import ResumableTemplates.Workspace.Basic

/-!
Outcomes kept in a workspace. A copy of an outcome leads to the same cell as the outcome itself, so
what one of them takes, the other has lost.
-/
namespace ResumableTemplates

inductive OutcomeView
  | done
  | suspended (state : ResumeState) (saved : Option Frames)

namespace Workspace

def saved? (w : Workspace) (s : ResumeState) : Option Frames := (w.cells[s.cell]?).join

def view (w : Workspace) : Outcome → OutcomeView
  | .done => .done
  | .suspended s => .suspended s (w.saved? s)

def keep (w : Workspace) (name : String) (o : Outcome) : Workspace :=
  { w with outcomes := w.outcomes.insert name o }.collect []

def discard (w : Workspace) (name : String) : Bool × Workspace :=
  (w.outcomes.contains name, { w with outcomes := w.outcomes.erase name }.collect [])

def suspend (w : Workspace) (name : String) (frames : Frames) (reason : PauseReason) :
    Outcome × Workspace :=
  let o := .suspended ⟨frames.outer.template, reason, frames.depth, w.cells.size⟩
  (o, { w with cells := w.cells.push (some frames) }.keep name o)

def takeSaved (w : Workspace) : Outcome → Except RenderError (Option Frames) × Workspace
  | .done => (.ok none, w)
  | .suspended s =>
    match w.saved? s with
    | none => (.error .doubleResume, w)
    | some f => (.ok (some f), { w with cells := w.cells.setIfInBounds s.cell none })

def resave (w : Workspace) (name : String) (o : Outcome) :
    Except RenderError (Option Frames) × Workspace :=
  match o, w.takeSaved o with
  | .suspended s, (.ok (some f), w) => (.ok (some f), (w.suspend name f s.reason).2)
  | _, r => r

end Workspace

end ResumableTemplates
