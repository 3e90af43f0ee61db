import ResumableTemplates.Content
import ResumableTemplates.Tree.Expr

/-!
Statements of a template body.
-/
namespace ResumableTemplates

inductive CallTarget
  | template (name : String)
  | delegate (name : String) (variant : Option Expr) (allowEmpty : Bool)

inductive CallData
  | none
  | all
  | expr (e : Expr)

mutual

inductive Node
  | text (s : String)
  | print (e : Expr)
  | branch (branches : List (Expr × List Node)) (otherwise : Option (List Node))
  | switch (subject : Expr) (cases : List (List Expr × List Node)) (otherwise : Option (List Node))
  | each (var : String) (index : Option String) (items : Expr) (body : List Node)
      (ifEmpty : Option (List Node))
  | bind (name : String) (value : Expr)
  | capture (name : String) (kind : DeclaredKind) (body : List Node)
  | call (target : CallTarget) (data : CallData) (args : List Arg)
  | tag (name : String) (children : List Node) (selfClosing : Bool)
  | key (e : Expr)

inductive Arg
  | value (name : String) (e : Expr)
  | content (name : String) (kind : DeclaredKind) (body : List Node)

end

def Arg.name : Arg → String
  | .value n _ | .content n _ _ => n

end ResumableTemplates
