import ResumableTemplates.Tree.Node

/-!
Templates with their headers, and the files they are written in.
-/
namespace ResumableTemplates

inductive VarType
  | unknown | null | bool | int | float | string | list | record
  | content (kind : DeclaredKind)
  | template | element
deriving DecidableEq

structure Param where
  name : String
  isRequired : Bool
  isInjected : Bool
  default : Option Expr
  type : VarType

namespace Param

def required (name : String) : Param := ⟨name, true, false, none, .unknown⟩

def optional (name : String) : Param := ⟨name, false, false, none, .unknown⟩

def injected (name : String) : Param := ⟨name, false, true, none, .unknown⟩

end Param

structure StateVar where
  name : String
  type : VarType
  initial : Expr

structure DelegateId where
  package : Option String
  name : String
  variant : String
deriving DecidableEq

/-- The name a delegate implementation gets unless it is given one: the delegate's name, behind
its package if it has one and before its variant unless that is empty. -/
def DelegateId.templateName (d : DelegateId) : String :=
  let full := match d.package with
    | none => d.name
    | some p => p ++ "::" ++ d.name
  if d.variant = "" then full else full ++ ":" ++ d.variant

structure Template where
  name : String
  isPrivate : Bool
  kind : DeclaredKind
  params : List Param
  state : List StateVar
  body : List Node
  css : List String
  delegate : Option DelegateId

namespace Template

def empty (name : String) : Template := ⟨name, false, .html, [], [], [], [], none⟩

def implementing (d : DelegateId) : Template := { empty d.templateName with delegate := some d }

end Template

structure TemplateFile where
  namespaceName : String
  css : List String
  templates : List Template

end ResumableTemplates
