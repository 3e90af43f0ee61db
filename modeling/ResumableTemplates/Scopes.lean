import ResumableTemplates.Failure
import ResumableTemplates.Tree.Template

/-!
Lexical scopes and the slots of a frame. Every declared variable and every temporary gets a slot of
its own, numbered in order and never given twice; a scope owns the slots allocated while it is the
innermost one. Slots of the header are filled again on every entry; of the others, those that an
open scope owns are live, and a pause saves exactly them.
-/
namespace ResumableTemplates

inductive SlotKind
  | param
  | injected
  | state
  | bound
  | synthetic
deriving DecidableEq

namespace SlotKind

def name : SlotKind → String
  | param => "param"
  | injected => "injected"
  | state => "state"
  | bound => "local"
  | synthetic => "synthetic"

def all : List SlotKind := [param, injected, state, bound, synthetic]

def ofName? (s : String) : Option SlotKind := all.find? (·.name == s)

def isRematerialized : SlotKind → Bool
  | param | injected | state => true
  | bound | synthetic => false

end SlotKind

structure SlotInfo where
  name : String
  type : VarType
  kind : SlotKind
deriving DecidableEq

/-- An open scope. Both lists have the latest first. -/
structure Scope where
  id : UInt32
  bindings : List (String × Nat)
  owned : List Nat
deriving DecidableEq

structure Scopes where
  template : String
  slots : Array SlotInfo
  stack : List Scope
  nextId : UInt32
deriving DecidableEq

namespace Scopes

def empty (template : String) : Scopes := ⟨template, #[], [], 0⟩

def limit : Nat := UInt32.size

/-- Opens a scope under the next number. After the last one the numbers begin anew. -/
def enter (s : Scopes) : UInt32 × Scopes :=
  (s.nextId, { s with stack := ⟨s.nextId, [], []⟩ :: s.stack, nextId := s.nextId + 1 })

def exit (s : Scopes) (id : UInt32) : Except CompileError Scopes :=
  match s.stack with
  | [] => .error (.internal s.template .exitOrder)
  | top :: rest =>
    if top.id = id then .ok { s with stack := rest }
    else .error (.internal s.template .exitOrder)

def allocate (s : Scopes) (top : Scope) (rest : List Scope) (info : SlotInfo) (binds : Bool) :
    Except CompileError (Nat × Scopes) :=
  let slot := s.slots.size
  if slot < limit then
    let bindings := if binds then (info.name, slot) :: top.bindings else top.bindings
    .ok (slot, { s with
      slots := s.slots.push info
      stack := ⟨top.id, bindings, slot :: top.owned⟩ :: rest })
  else .error (.internal s.template .tooManySlots)

def declare (s : Scopes) (name : String) (type : VarType) (kind : SlotKind) :
    Except CompileError (Nat × Scopes) :=
  match s.stack with
  | [] => .error (.internal s.template (.undeclarable name))
  | top :: rest =>
    if (top.bindings.lookup name).isSome then .error (.duplicateLocal s.template name)
    else s.allocate top rest ⟨name, type, kind⟩ true

def temporary (s : Scopes) (label : String) : Except CompileError (Nat × Scopes) :=
  match s.stack with
  | [] => .error (.internal s.template (.unallocatable label))
  | top :: rest => s.allocate top rest ⟨label, .unknown, .synthetic⟩ false

def lookup? (s : Scopes) (name : String) : Option Nat :=
  s.stack.findSome? (·.bindings.lookup name)

def kindOf? (s : Scopes) (slot : Nat) : Option SlotKind := (s.slots[slot]?).map (·.kind)

/-- The innermost variable of that name and kind; variables of other kinds do not hide it. -/
def lookupKind? (s : Scopes) (name : String) (kind : SlotKind) : Option Nat :=
  s.stack.findSome? fun scope =>
    (scope.bindings.lookup name).filter fun slot => s.kindOf? slot = some kind

/-- The slots of open scopes that no entry fills, in ascending order. -/
def live (s : Scopes) : List Nat :=
  ((s.stack.flatMap (·.owned)).filter fun slot =>
    !((s.kindOf? slot).map (·.isRematerialized)).getD false).reverse

def depth (s : Scopes) : Nat := s.stack.length

end Scopes

end ResumableTemplates
