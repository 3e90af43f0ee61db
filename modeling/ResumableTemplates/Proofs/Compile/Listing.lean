import ResumableTemplates.Compile.Template

/-! The compiler with its ops as lists. Every statement gives its own ops, whose jumps have their targets
from the start, as the position of the next op is counted beside them. -/
namespace ResumableTemplates

namespace Compile

def place : Compile Unit := modify fun s => { s with position := s.position + 1 }

def placePoint : Compile Nat := do
  let s ← get
  let point := s.points.size
  if point < Scopes.limit then
    set { s with
      position := s.position + 1
      points := s.points.push ⟨s.position, s.scopes.live⟩ }
    return point
  else contradiction .tooManyPoints

def here : Compile Nat := return (← get).position

def inScope (c : Compile α) : Compile α := do
  let id ← onScopes fun s => .ok s.enter
  let a ← c
  onScopes fun s => (s.exit id).map ((), ·)
  return a

def writeText (out : Output) (s : String) : Compile (List Op) := do
  if s = "" then return []
  return [.text (← placePoint) out s]

end Compile

open Compile

namespace Node

mutual

def compile (joins : Bool) (out : Output) : Node → Compile (List Op)
  | text s => writeText out s
  | print e => do
    let value ← e.compile
    return [.print (← placePoint) out value]
  | branch bs o => compileBranches joins out bs
      (match o with
      | none => return []
      | some b => inScope (compileBlock joins out "" b))
  | switch e cs o => inScope do
      let value ← e.compile
      let subject ← temporary "switch subject"
      let point ← placePoint
      let cases ← compileCases joins out subject cs
        (match o with
        | none => return []
        | some b => inScope (compileBlock joins out "" b))
      return .store point subject value true :: cases
  | each var index items b ifEmpty => do
    let items ← items.compile
    let (start, loop) ← inScope do
      let list ← temporary "loop list"
      let cursor ← temporary "loop cursor"
      let point ← placePoint
      let item ← declare var .unknown
      let position ← match index with
        | none => pure none
        | some name => some <$> declare name .int
      let head ← here
      place
      let body ← inScope (compileBlock joins out "" b)
      place
      let exit ← here
      return (Op.forInit point items list cursor,
        Op.forNext list cursor item position exit :: (body ++ [.jump head]))
    match ifEmpty with
    | none => return start none :: loop
    | some b =>
      place
      let empty ← here
      let body ← inScope (compileBlock joins out "" b)
      return start (some empty) :: (loop ++ .jump (← here) :: body)
  | bind name value => do
    let value ← value.compile
    let slot ← declare name .unknown
    return [.store (← placePoint) slot value false]
  | capture name kind b => do
    let buffer ← temporary "let content"
    place
    let body ← inScope (compileBlock joins (.buffer buffer) "" b)
    let dest ← declare name (.content kind)
    place
    return .beginCapture buffer :: (body ++ [.endCapture buffer dest kind.rendered])
  | call target data as => inScope do
      let (captures, args) ← compileArgs joins as
      let base ← paramsBase data
      let callee ← callee target
      return captures ++ [.call (← placePoint) out callee base args]
  | tag name children selfClosing => do
    let start ← writeText out ("<" ++ name)
    let body ← compileChildren joins out children
    let stop ← writeText out (if selfClosing then "/>" else ">")
    return start ++ body ++ stop
  | key _ => contradiction .strayKey

def compileBlock (joins : Bool) (out : Output) (pending : String) : List Node → Compile (List Op)
  | [] => writeText out pending
  | n :: ns => do
    match joins, n with
    | true, text s => compileBlock joins out (pending ++ s) ns
    | _, _ =>
      let before ← writeText out pending
      let ops ← n.compile joins out
      let rest ← compileBlock joins out "" ns
      return before ++ ops ++ rest

def compileBranches (joins : Bool) (out : Output) :
    List (Expr × List Node) → Compile (List Op) → Compile (List Op)
  | [], otherwise => otherwise
  | (e, b) :: bs, otherwise => do
    let test ← e.compile
    let point ← placePoint
    let body ← inScope (compileBlock joins out "" b)
    place
    let next ← here
    let rest ← compileBranches joins out bs otherwise
    return .branchUnless point test next :: (body ++ .jump (← here) :: rest)

def compileCases (joins : Bool) (out : Output) (subject : Nat) :
    List (List Expr × List Node) → Compile (List Op) → Compile (List Op)
  | [], otherwise => otherwise
  | (es, b) :: cs, otherwise => do
    let values ← Expr.compileAll es
    let point ← placePoint
    let body ← inScope (compileBlock joins out "" b)
    place
    let next ← here
    let rest ← compileCases joins out subject cs otherwise
    return .branchUnlessMatch point subject values next :: (body ++ .jump (← here) :: rest)

def compileArgs (joins : Bool) : List Arg → Compile (List Op × List (String × ArgSource))
  | [] => return ([], [])
  | .value name e :: as => do
    let value ← e.compile
    let (ops, args) ← compileArgs joins as
    return (ops, (name, .code value) :: args)
  | .content name kind b :: as => do
    let buffer ← temporary "call param"
    place
    let body ← inScope (compileBlock joins (.buffer buffer) "" b)
    place
    let (ops, args) ← compileArgs joins as
    return (.beginCapture buffer :: (body ++ .endCapture buffer buffer kind.rendered :: ops),
      (name, .slot buffer) :: args)

def compileChildren (joins : Bool) (out : Output) : List Node → Compile (List Op)
  | [] => return []
  | n :: ns => do
    match n with
    | key e =>
      let _ ← e.compile
      compileChildren joins out ns
    | _ =>
      let ops ← n.compile joins out
      return ops ++ (← compileChildren joins out ns)

end

end Node

namespace Compile

def procedure (joins : Bool) (t : Template) : Compile Procedure := do
  let header ← onScopes fun s => .ok s.enter
  let params ← params t.params
  let state ← stateVars t.state
  let ops ← Node.compileBlock joins .sink "" t.body
  finish header
  let s ← get
  return ⟨ops.toArray, s.points, s.scopes.slots, params, state⟩

end Compile

end ResumableTemplates
