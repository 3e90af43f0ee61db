import ResumableTemplates.Compile.Expression

/-!
Compilation of template bodies. A block becomes a list of ops that is emitted from front to back. A
jump forward is emitted before its target is known, and is aimed at it later. The shapes:

      if c1 A elseif c2 B else C          for x in items A ifempty E

          branchUnless c1, L1                 forInit list, cursor, EMPTY
          A                            HEAD:  forNext x, EXIT
          jump END                            A
      L1: branchUnless c2, L2                 jump HEAD
          B                            EXIT:  jump END
          jump END                     EMPTY: E
      L2: C                            END:
      END:

A `switch` stores its subject and is like an `if` after that. Every block has a scope of its own,
so what it declares is live until its end and no longer.
-/
namespace ResumableTemplates

namespace Compile

def declare (name : String) (type : VarType) : Compile Nat :=
  onScopes (·.declare name type .bound)

def temporary (label : String) : Compile Nat := onScopes (·.temporary label)

def callee : CallTarget → Compile Callee
  | .template n => do
    let site ← newSite
    modify fun s => { s with calls := s.calls.push (site, n) }
    return .template site n
  | .delegate n none allowEmpty => return .delegate n none allowEmpty
  | .delegate n (some v) allowEmpty => return .delegate n (some (← v.compile)) allowEmpty

def paramsBase : CallData → Compile ParamsBase
  | .none => return .none
  | .all => return .all
  | .expr e => return .code (← e.compile)

def finish (header : UInt32) : Compile Unit := do
  onScopes fun s => (s.exit header).map ((), ·)
  if (← get).scopes.depth ≠ 0 then contradiction .openScopes

end Compile

def Op.aimed? (target : Nat) : Op → Option Op
  | .branchUnless p c _ => some (.branchUnless p c target)
  | .branchUnlessMatch p n cs _ => some (.branchUnlessMatch p n cs target)
  | .jump _ => some (.jump target)
  | .forInit p c l n (some _) => some (.forInit p c l n (some target))
  | .forNext l n i x _ => some (.forNext l n i x target)
  | _ => none

structure Builder where
  scopes : Scopes
  ops : Array Op
  points : Array ResumeEntry
  nextSite : Nat
  calls : Array (Nat × String)

namespace Builder

def of (scopes : Scopes) : Builder := ⟨scopes, #[], #[], 0, #[]⟩

def state (b : Builder) : CompileState := ⟨b.scopes, b.ops.size, b.points, b.nextSite, b.calls⟩

end Builder

abbrev Build := ExceptT CompileError (StateM Builder)

namespace Build

open Compile

def lift (c : Compile α) : Build α := fun b =>
  let (r, s) := c b.state
  (r, { b with scopes := s.scopes, points := s.points, nextSite := s.nextSite, calls := s.calls })

def here : Build Nat := return (← get).ops.size

def emit (op : Op) : Build Nat := do
  let position ← here
  modify fun b => { b with ops := b.ops.push op }
  return position

def emitPoint (op : (point : Nat) → Op) : Build Nat := do
  let point := (← get).points.size
  if point < Scopes.limit then
    modify fun b => { b with points := b.points.push ⟨b.ops.size, b.scopes.live⟩ }
    emit (op point)
  else lift (contradiction .tooManyPoints)

def patch (position target : Nat) : Build Unit := do
  match ((← get).ops[position]?).bind (·.aimed? target) with
  | some op => modify fun b => { b with ops := b.ops.setIfInBounds position op }
  | none => lift (contradiction (.unpatchable position))

def patchAll (target : Nat) : (positions : List Nat) → Build Unit
  | [] => return ()
  | n :: ns => do
    patch n target
    patchAll target ns

instance : MonadLift Compile Build := ⟨lift⟩

/-- Builds in a scope of its own. An error leaves the scope open. -/
def inScope (m : Build α) : Build α := do
  let id ← onScopes fun s => .ok s.enter
  let a ← m
  onScopes fun s => (s.exit id).map ((), ·)
  return a

def emitText (out : Output) (s : String) : Build Unit := do
  if s ≠ "" then
    let _ ← emitPoint (.text · out s)

end Build

open Compile Build

namespace Node

mutual

/-- Emits a statement that writes to `out`. With `joins`, adjacent texts of a block become one. -/
def build (joins : Bool) (out : Output) : Node → Build Unit
  | text s => emitText out s
  | print e => do
    let value ← e.compile
    let _ ← emitPoint (.print · out value)
  | branch bs o => do
    let ends ← buildBranches joins out bs
    match o with
    | none => pure ()
    | some b => inScope (buildBlock joins out "" b)
    patchAll (← here) ends
  | switch e cs o => inScope do
    let value ← e.compile
    let subject ← temporary "switch subject"
    let _ ← emitPoint (.store · subject value true)
    let ends ← buildCases joins out subject cs
    match o with
    | none => pure ()
    | some b => inScope (buildBlock joins out "" b)
    patchAll (← here) ends
  | each var index items b ifEmpty => do
    let items ← items.compile
    let start ← inScope do
      let list ← temporary "loop list"
      let cursor ← temporary "loop cursor"
      let start ← emitPoint (.forInit · items list cursor (ifEmpty.map fun _ => 0))
      let item ← declare var .unknown
      let position ← match index with
        | none => pure none
        | some name => some <$> declare name .int
      let head ← here
      let next ← emit (.forNext list cursor item position 0)
      inScope (buildBlock joins out "" b)
      let _ ← emit (.jump head)
      patch next (← here)
      return start
    match ifEmpty with
    | none => return ()
    | some b =>
      let skip ← emit (.jump 0)
      patch start (← here)
      inScope (buildBlock joins out "" b)
      patch skip (← here)
  | bind name value => do
    let value ← value.compile
    let slot ← declare name .unknown
    let _ ← emitPoint (.store · slot value false)
  | capture name kind b => do
    let buffer ← temporary "let content"
    let _ ← emit (.beginCapture buffer)
    inScope (buildBlock joins (.buffer buffer) "" b)
    let dest ← declare name (.content kind)
    let _ ← emit (.endCapture buffer dest kind.rendered)
  | call target data as => inScope do
    let args ← buildArgs joins as
    let base ← paramsBase data
    let callee ← callee target
    let _ ← emitPoint (.call · out callee base args)
  | tag name children selfClosing => do
    emitText out ("<" ++ name)
    buildChildren joins out children
    emitText out (if selfClosing then "/>" else ">")
  | key _ => contradiction .strayKey

def buildBlock (joins : Bool) (out : Output) (pending : String) : List Node → Build Unit
  | [] => emitText out pending
  | n :: ns =>
    match joins, n with
    | true, text s => buildBlock joins out (pending ++ s) ns
    | _, _ => do
      emitText out pending
      n.build joins out
      buildBlock joins out "" ns

def buildBranches (joins : Bool) (out : Output) : List (Expr × List Node) → Build (List Nat)
  | [] => return []
  | (e, b) :: bs => do
    let test ← e.compile
    let start ← emitPoint (.branchUnless · test 0)
    inScope (buildBlock joins out "" b)
    let stop ← emit (.jump 0)
    patch start (← here)
    return stop :: (← buildBranches joins out bs)

def buildCases (joins : Bool) (out : Output) (subject : Nat) :
    List (List Expr × List Node) → Build (List Nat)
  | [] => return []
  | (es, b) :: cs => do
    let values ← Expr.compileAll es
    let start ← emitPoint (.branchUnlessMatch · subject values 0)
    inScope (buildBlock joins out "" b)
    let stop ← emit (.jump 0)
    patch start (← here)
    return stop :: (← buildCases joins out subject cs)

def buildArgs (joins : Bool) : List Arg → Build (List (String × ArgSource))
  | [] => return []
  | .value name e :: as => do
    let value ← e.compile
    return (name, .code value) :: (← buildArgs joins as)
  | .content name kind b :: as => do
    let buffer ← temporary "call param"
    let _ ← emit (.beginCapture buffer)
    inScope (buildBlock joins (.buffer buffer) "" b)
    let _ ← emit (.endCapture buffer buffer kind.rendered)
    return (name, .slot buffer) :: (← buildArgs joins as)

def buildChildren (joins : Bool) (out : Output) : List Node → Build Unit
  | [] => return ()
  | n :: ns => do
    match n with
    | key e =>
      let _ ← e.compile
    | _ => n.build joins out
    buildChildren joins out ns

end

end Node

end ResumableTemplates
