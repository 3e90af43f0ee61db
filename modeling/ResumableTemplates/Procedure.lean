import ResumableTemplates.Scopes
import ResumableTemplates.Value.Record

/-!
Compiled templates: expressions whose variables are slots, and a flat list of ops with jumps. Every
op that can pause has a resume point of its own. A resume runs that op again from its start, so no
op changes anything before its last chance to pause.
-/
namespace ResumableTemplates

/-- A compiled expression. References to templates and to metadata tables are numbered sites, which
find out at render time where their target is. -/
inductive Code
  | const (v : Value)
  | slot (n : Nat)
  | injected (name : String)
  | binary (op : BinaryOp) (left right : Code)
  | unary (op : UnaryOp) (operand : Code)
  | cond (test yes no : Code)
  | list (items : List Code)
  | record (fields : List (String × Code))
  | field (base : Code) (name : String) (nullSafe : Bool)
  | index (base key : Code)
  | builtin (f : Builtin) (args : List Code)
  | template (site : Nat) (name : String)
  | element (id : UInt64) (name : String) (metadata : Option (Nat × String))

def Code.const? : Code → Option Value
  | .const v => some v
  | _ => none

inductive Output
  | sink
  | buffer (slot : Nat)
deriving DecidableEq

inductive Callee
  | template (site : Nat) (name : String)
  | delegate (name : String) (variant : Option Code) (allowEmpty : Bool)

inductive ParamsBase
  | none
  | all
  | code (c : Code)

inductive ArgSource
  | code (c : Code)
  | slot (n : Nat)

/-- An op. Positions are indices into the op list, `point` is the op's resume point. -/
inductive Op
  | text (point : Nat) (out : Output) (s : String)
  | print (point : Nat) (out : Output) (value : Code)
  | store (point slot : Nat) (value : Code) (forces : Bool)
  | branchUnless (point : Nat) (test : Code) (target : Nat)
  | branchUnlessMatch (point subject : Nat) (cases : List Code) (target : Nat)
  | jump (target : Nat)
  | forInit (point : Nat) (items : Code) (list cursor : Nat) (onEmpty : Option Nat)
  | forNext (list cursor item : Nat) (index : Option Nat) (exit : Nat)
  | beginCapture (buffer : Nat)
  | endCapture (buffer dest : Nat) (kind : ContentKind)
  | call (point : Nat) (out : Output) (callee : Callee) (base : ParamsBase)
      (args : List (String × ArgSource))

def Op.point? : Op → Option Nat
  | .text p .. | .print p .. | .store p .. | .branchUnless p .. | .branchUnlessMatch p ..
  | .forInit p .. | .call p .. => some p
  | .jump _ | .forNext .. | .beginCapture _ | .endCapture .. => none

structure ResumeEntry where
  position : Nat
  live : List Nat
deriving DecidableEq

structure ParamBinding where
  slot : Nat
  name : String
  isInjected : Bool
  default : Option Value

structure StateBinding where
  slot : Nat
  value : Value

structure Procedure where
  ops : Array Op
  points : Array ResumeEntry
  layout : Array SlotInfo
  params : List ParamBinding
  state : List StateBinding

inductive Local
  | unset
  | value (v : Value)
  | buffer (s : String)
  | cursor (n : Nat)

instance : Inhabited Local := ⟨.unset⟩

def Local.value? : Local → Option Value
  | unset | buffer _ => none
  | value v => some v
  | cursor n => some (.int (.ofNat n))

def Local.longest : Local → Nat
  | .value v => v.longest
  | _ => 0

namespace Code

mutual

def longest : Code → Nat
  | const v => v.longest
  | binary _ l r => max l.longest r.longest
  | unary _ e => e.longest
  | cond c t e => max c.longest (max t.longest e.longest)
  | list cs => max cs.length (longestAmong cs)
  | record fs => longestField fs
  | field b _ _ => b.longest
  | index b k => max b.longest k.longest
  | builtin _ cs => longestAmong cs
  | slot _ | injected _ | template .. | element .. => 0

def longestAmong : List Code → Nat
  | [] => 0
  | c :: cs => max c.longest (longestAmong cs)

def longestField : List (String × Code) → Nat
  | [] => 0
  | (_, c) :: fs => max c.longest (longestField fs)

end

end Code

def Op.longest : Op → Nat
  | .store _ _ c _ => c.longest
  | .forInit _ c .. => c.longest
  | _ => 0

end ResumableTemplates
