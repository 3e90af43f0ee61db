import ResumableTemplates.Compile.Fold
import ResumableTemplates.Procedure

/-!
Compilation of expressions: constant parts become their values, variables become slots, references
to other templates and to metadata become numbered sites.
-/
namespace ResumableTemplates

/-- What compiling a template has come to, its ops aside. It stays as it is when compilation fails. -/
structure CompileState where
  scopes : Scopes
  position : Nat
  points : Array ResumeEntry
  nextSite : Nat
  calls : Array (Nat × String)

def CompileState.of (scopes : Scopes) : CompileState := ⟨scopes, 0, #[], 0, #[]⟩

abbrev Compile := ExceptT CompileError (StateM CompileState)

namespace Compile

def onScopes (f : Scopes → Except CompileError (α × Scopes)) : Compile α := do
  match f (← get).scopes with
  | .ok (a, scopes) => modify fun s => { s with scopes := scopes }; return a
  | .error e => throw e

def contradiction (i : Inconsistency) : Compile α := do
  throw (.internal (← get).scopes.template i)

def newSite : Compile Nat :=
  modifyGet fun s => (s.nextSite, { s with nextSite := s.nextSite + 1 })

end Compile

def VarRef.slot? (s : Scopes) : VarRef → Option Nat
  | param n => (s.lookupKind? n .param).or (s.lookupKind? n .injected)
  | state n => s.lookupKind? n .state
  | bound n => s.lookupKind? n .bound
  | injected n => s.lookupKind? n .injected

def VarRef.kindName : VarRef → String
  | param _ => "Param"
  | state _ => "State"
  | bound _ => "Local"
  | injected _ => "Injected"

def VarRef.compile (v : VarRef) : Compile Code := do
  match v.slot? (← get).scopes with
  | some slot => return .slot slot
  | none =>
    match v with
    | .injected n => return .injected n
    | _ => Compile.contradiction (.unresolved v.kindName v.name)

namespace Expr

mutual

def compile (e : Expr) : Compile Code :=
  match e.fold? with
  | some v => return .const v
  | none =>
    match e with
    | literal l => return .const l.value
    | var v => v.compile
    | binary op l r => return .binary op (← l.compile) (← r.compile)
    | unary op e => return .unary op (← e.compile)
    | cond c t e => return .cond (← c.compile) (← t.compile) (← e.compile)
    | list es => return .list (← compileAll es)
    | record fs => return .record (← compileFields fs)
    | field b n s => return .field (← b.compile) n s
    | index b k => return .index (← b.compile) (← k.compile)
    | builtin f es => return .builtin f (← compileAll es)
    | template n => return .template (← Compile.newSite) n
    | element i n none => return .element i n none
    | element i n (some t) => return .element i n (some (← Compile.newSite, t))

def compileAll : List Expr → Compile (List Code)
  | [] => return []
  | e :: es => return (← e.compile) :: (← compileAll es)

def compileFields : List (String × Expr) → Compile (List (String × Code))
  | [] => return []
  | (k, e) :: fs => return (k, ← e.compile) :: (← compileFields fs)

end

def constant (s : Scopes) (owner : String) (e : Expr) : Except CompileError Value :=
  match e.fold? with
  | some v => .ok v
  | none => .error (.notConstant s.template owner)

end Expr

end ResumableTemplates
