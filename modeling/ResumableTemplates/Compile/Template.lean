import ResumableTemplates.Compile.Body

/-!
Compilation of whole templates: the header first, each default before its parameter is declared,
then the body.
-/
namespace ResumableTemplates

structure CompiledTemplate where
  name : String
  isPrivate : Bool
  kind : ContentKind
  procedure : Procedure
  calls : List (Nat × String)

namespace Compile

def constant (owner : String) (e : Expr) : Compile Value := do
  match e.constant (← get).scopes owner with
  | .ok v => return v
  | .error e => throw e

def param (p : Param) : Compile ParamBinding := do
  let default ← match p.default with
    | none => pure none
    | some e => some <$> constant p.name e
  let kind := if p.isInjected then .injected else .param
  let slot ← onScopes (·.declare p.name p.type kind)
  return ⟨slot, p.name, p.isInjected, default⟩

def stateVar (v : StateVar) : Compile StateBinding := do
  let value ← constant v.name v.initial
  return ⟨← onScopes (·.declare v.name v.type .state), value⟩

def params : List Param → Compile (List ParamBinding)
  | [] => return []
  | p :: ps => return (← param p) :: (← params ps)

def stateVars : List StateVar → Compile (List StateBinding)
  | [] => return []
  | v :: vs => return (← stateVar v) :: (← stateVars vs)

end Compile

namespace Build

open Compile

def body (joins : Bool) (nodes : List Node) : Build Unit := Node.buildBlock joins .sink "" nodes

def procedure (joins : Bool) (t : Template) : Build Procedure := do
  let header ← onScopes fun s => .ok s.enter
  let params ← params t.params
  let state ← stateVars t.state
  body joins t.body
  finish header
  let b ← getThe Builder
  return ⟨b.ops, b.points, b.scopes.slots, params, state⟩

end Build

def Template.compile (joins : Bool) (t : Template) : Except CompileError CompiledTemplate :=
  match (Build.procedure joins t).run (.of (.empty t.name)) with
  | (.ok p, b) => .ok ⟨t.name, t.isPrivate, t.kind.rendered, p, b.calls.toList⟩
  | (.error e, _) => .error e

end ResumableTemplates
