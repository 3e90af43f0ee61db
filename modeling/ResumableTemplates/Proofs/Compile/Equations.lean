import ResumableTemplates.Proofs.Compile.Yields

/-! The compilation of each kind of statement, as an equation of its own. -/
namespace ResumableTemplates

namespace Node

open Compile

variable (joins : Bool) (out : Output)

def compileOptional : Option (List Node) → Compile (List Op)
  | none => return []
  | some b => inScope (compileBlock joins out "" b)

def declareIndex : Option String → Compile (Option Nat)
  | none => return none
  | some name => some <$> declare name .int

def compileLoop (var : String) (index : Option String) (items : Code) (b : List Node) :
    Compile ((Option Nat → Op) × List Op) := inScope do
  let list ← temporary "loop list"
  let cursor ← temporary "loop cursor"
  let point ← placePoint
  let item ← declare var .unknown
  let position ← declareIndex index
  let head ← here
  place
  let body ← inScope (compileBlock joins out "" b)
  place
  let exit ← here
  return (Op.forInit point items list cursor,
    Op.forNext list cursor item position exit :: (body ++ [.jump head]))

theorem compile_text (s : String) : (text s).compile joins out = writeText out s := rfl

theorem compile_print (e : Expr) : (print e).compile joins out = do
    let value ← e.compile
    return [.print (← placePoint) out value] := rfl

theorem compile_branch (bs : List (Expr × List Node)) (o : Option (List Node)) :
    (branch bs o).compile joins out =
      compileBranches joins out bs (compileOptional joins out o) := by
  cases o <;> rfl

theorem compile_switch (e : Expr) (cs : List (List Expr × List Node)) (o : Option (List Node)) :
    («switch» e cs o).compile joins out = inScope do
      let value ← e.compile
      let subject ← temporary "switch subject"
      let point ← placePoint
      let cases ← compileCases joins out subject cs (compileOptional joins out o)
      return .store point subject value true :: cases := by
  cases o <;> rfl

theorem compile_each (var : String) (index : Option String) (items : Expr) (b : List Node)
    (ifEmpty : Option (List Node)) : (each var index items b ifEmpty).compile joins out = do
      let items ← items.compile
      let (start, loop) ← compileLoop joins out var index items b
      match ifEmpty with
      | none => return start none :: loop
      | some b =>
        place
        let empty ← here
        let body ← inScope (compileBlock joins out "" b)
        return start (some empty) :: (loop ++ .jump (← here) :: body) := by
  cases index <;> cases ifEmpty <;> rfl

theorem compile_bind (name : String) (value : Expr) : (bind name value).compile joins out = do
    let value ← value.compile
    let slot ← declare name .unknown
    return [.store (← placePoint) slot value false] := rfl

theorem compile_capture (name : String) (kind : DeclaredKind) (b : List Node) :
    (capture name kind b).compile joins out = do
      let buffer ← temporary "let content"
      place
      let body ← inScope (compileBlock joins (.buffer buffer) "" b)
      let dest ← declare name (.content kind)
      place
      return .beginCapture buffer :: (body ++ [.endCapture buffer dest kind.rendered]) := rfl

theorem compile_call (target : CallTarget) (data : CallData) (as : List Arg) :
    (call target data as).compile joins out = inScope do
      let (captures, args) ← compileArgs joins as
      let base ← paramsBase data
      let callee ← callee target
      return captures ++ [.call (← placePoint) out callee base args] := rfl

theorem compile_tag (name : String) (children : List Node) (selfClosing : Bool) :
    (tag name children selfClosing).compile joins out = do
      let start ← writeText out ("<" ++ name)
      let body ← compileChildren joins out children
      let stop ← writeText out (if selfClosing then "/>" else ">")
      return start ++ body ++ stop := rfl

theorem compile_key (e : Expr) : (key e).compile joins out = contradiction .strayKey := rfl

theorem compileBlock_join (pending s : String) (ns : List Node) :
    compileBlock true out pending (text s :: ns) = compileBlock true out (pending ++ s) ns := rfl

theorem compileBlock_cons {joins : Bool} {n : Node} (h : joins = true → ∀ s, n ≠ text s)
    (pending : String) (ns : List Node) : compileBlock joins out pending (n :: ns) = do
      let before ← writeText out pending
      let ops ← n.compile joins out
      let rest ← compileBlock joins out "" ns
      return before ++ ops ++ rest := by
  cases joins with
  | false => rfl
  | true =>
    cases n with
    | text s => exact absurd rfl (h rfl s)
    | _ => rfl

theorem compileBranches_cons (e : Expr) (b : List Node) (bs : List (Expr × List Node))
    (otherwise : Compile (List Op)) : compileBranches joins out ((e, b) :: bs) otherwise = do
      let test ← e.compile
      let point ← placePoint
      let body ← inScope (compileBlock joins out "" b)
      place
      let next ← here
      let rest ← compileBranches joins out bs otherwise
      return .branchUnless point test next :: (body ++ .jump (← here) :: rest) := rfl

theorem compileCases_cons (subject : Nat) (es : List Expr) (b : List Node)
    (cs : List (List Expr × List Node)) (otherwise : Compile (List Op)) :
    compileCases joins out subject ((es, b) :: cs) otherwise = do
      let values ← Expr.compileAll es
      let point ← placePoint
      let body ← inScope (compileBlock joins out "" b)
      place
      let next ← here
      let rest ← compileCases joins out subject cs otherwise
      return .branchUnlessMatch point subject values next :: (body ++ .jump (← here) :: rest) := rfl

theorem compileArgs_value (name : String) (e : Expr) (as : List Arg) :
    compileArgs joins (.value name e :: as) = do
      let value ← e.compile
      let (ops, args) ← compileArgs joins as
      return (ops, (name, .code value) :: args) := rfl

theorem compileArgs_content (name : String) (kind : DeclaredKind) (b : List Node) (as : List Arg) :
    compileArgs joins (.content name kind b :: as) = do
      let buffer ← temporary "call param"
      place
      let body ← inScope (compileBlock joins (.buffer buffer) "" b)
      place
      let (ops, args) ← compileArgs joins as
      return (.beginCapture buffer :: (body ++ .endCapture buffer buffer kind.rendered :: ops),
        (name, .slot buffer) :: args) := rfl

theorem compileChildren_key (e : Expr) (ns : List Node) :
    compileChildren joins out (key e :: ns) =
      e.compile >>= fun _ => compileChildren joins out ns := rfl

theorem compileChildren_cons {n : Node} (h : ∀ e, n ≠ key e) (ns : List Node) :
    compileChildren joins out (n :: ns) = do
      let ops ← n.compile joins out
      return ops ++ (← compileChildren joins out ns) := by
  cases n with
  | key e => exact absurd rfl (h e)
  | _ => rfl

end Node

end ResumableTemplates
