import ResumableTemplates.Procedure
import ResumableTemplates.Value.Search

/-!
What a paused render leaves behind: of every template on the call stack, outermost first, where it
stopped and what its live slots held. A saved render is taken once, by whoever comes first; copies
of an outcome share it.
-/
namespace ResumableTemplates

structure SavedActivation where
  template : String
  point : Nat
  locals : List Local

/-- A call that was under way: whom it renders, with what parameters, and how far that has come. -/
structure PendingCall where
  callee : TemplateRef
  params : Record
  saved : SavedActivation

/-- A saved render: the outermost template and the calls under way inside it, outermost first. -/
structure Frames where
  outer : SavedActivation
  calls : List PendingCall

inductive PauseReason
  | sinkNotReady | valueNotReady
deriving DecidableEq

inductive FrameOutcome
  | done
  | paused (frames : Frames) (reason : PauseReason)

structure ResumeState where
  template : String
  reason : PauseReason
  depth : Nat
  cell : Nat
deriving DecidableEq

inductive Outcome
  | done
  | suspended (state : ResumeState)
deriving DecidableEq

def Outcome.cell? : Outcome → Option Nat
  | .done => none
  | .suspended s => some s.cell

def Local.mentions (t : TemplateRef) : Local → Bool
  | .value v => v.keeps t
  | _ => false

def SavedActivation.mentions (t : TemplateRef) (s : SavedActivation) : Bool :=
  s.locals.any (·.mentions t)

def PendingCall.mentions (t : TemplateRef) (c : PendingCall) : Bool :=
  c.callee = t || Value.fieldsKeep t c.params || c.saved.mentions t

namespace Frames

def depth (f : Frames) : Nat := f.calls.length + 1

def mentions (t : TemplateRef) (f : Frames) : Bool :=
  f.outer.mentions t || f.calls.any (·.mentions t)

end Frames

end ResumableTemplates
