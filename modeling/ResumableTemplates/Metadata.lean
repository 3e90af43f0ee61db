import ResumableTemplates.Tree.Walk

/-!
Metadata: what can be known of a template without rendering it. Every list names each thing once,
where it occurs first in the walk over the template.
-/
namespace ResumableTemplates

structure DelegateMetadata where
  package : String
  name : String
  variant : String
deriving DecidableEq

namespace DelegateMetadata

def of : Option DelegateId → DelegateMetadata
  | none => ⟨"", "", ""⟩
  | some d => ⟨d.package.getD "", d.name, d.variant⟩

def isDelegate (d : DelegateMetadata) : Bool := d.name != ""

end DelegateMetadata

structure Metadata where
  name : String
  kind : ContentKind
  isPrivate : Bool
  css : List String
  injected : List String
  callees : List String
  delegateCallees : List String
  delegate : DelegateMetadata
deriving DecidableEq

namespace Template

def declaresInjected (t : Template) (name : String) : Bool :=
  t.params.any fun p => p.isInjected && p.name == name

def injectedRead? (t : Template) : Visit → Option String
  | .expr (.var (.injected n)) => some n
  | .expr (.var (.param n)) => if t.declaresInjected n then some n else none
  | _ => none

def injectedReads (t : Template) : List String := (t.visits.filterMap t.injectedRead?).eraseDups

end Template

def Visit.callee? : Visit → Option String
  | .call (.template n) _ => some n
  | .expr (.template n) => some n
  | _ => none

def Visit.delegateCallee? : Visit → Option String
  | .call (.delegate n ..) _ => some n
  | _ => none

def Metadata.of (f : TemplateFile) (t : Template) : Metadata where
  name := t.name
  kind := t.kind.rendered
  isPrivate := t.isPrivate
  css := (f.css ++ t.css).eraseDups
  injected := t.injectedReads
  callees := (t.visits.filterMap Visit.callee?).eraseDups
  delegateCallees := (t.visits.filterMap Visit.delegateCallee?).eraseDups
  delegate := .of t.delegate

end ResumableTemplates
