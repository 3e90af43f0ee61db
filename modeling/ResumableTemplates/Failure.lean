/-!
What can go wrong: each error is a cause, and one function per family gives its wording. A paused
render is no error and has no place here.
-/
namespace ResumableTemplates

/-- Data of the wrong type or value. Operators and functions are given by their written form, types
by their names. -/
inductive DataError
  | operandTypes (op left right : String)
  | operandType (op operand : String)
  | overflow (op : String)
  | moduloByZero
  | noFields (field type : String)
  | notIndexable (type key : String)
  | notIterable (type : String)
  | notRecord (type : String)
  | argumentType (function type : String)
  | argumentCount (function : String) (count : Nat)
  | stated (message : String)
deriving DecidableEq

def DataError.message : DataError → String
  | operandTypes op l r => s!"operator `{op}` cannot be applied to {l} and {r}"
  | operandType op t => s!"operator `{op}` cannot be applied to {t}"
  | overflow op => s!"integer overflow in `{op}`"
  | moduloByZero => "modulo by zero"
  | noFields field t => s!"cannot read field `{field}` of {t}"
  | notIndexable t key => s!"cannot index {t} with {key}"
  | notIterable t => s!"`for` requires a list, got {t}"
  | notRecord t => s!"call data must be a record, got {t}"
  | argumentType f t => s!"`{f}` cannot be applied to {t}"
  | argumentCount f n => s!"`{f}` takes exactly one argument, got {n}"
  | stated message => message

inductive SinkError
  | brokenPipe
  | writeZero
  | refused
deriving DecidableEq

def SinkError.message : SinkError → String
  | brokenPipe => "peer closed"
  | writeZero => "failed to write whole buffer"
  | refused => "sink failed"

/-- How a compiled template, or the state it is resumed from, can contradict itself. -/
inductive Inconsistency
  | unwrittenSlot (slot : Nat)
  | notAValue (slot : Nat)
  | noSuchSlot (slot : Nat)
  | notABuffer (slot : Nat)
  | missingBuffer
  | negativeCursor
  | cursorType (type : String)
  | loopListType (type : String)
  | foreignFrame (template : String)
  | unknownPoint (point : Nat)
  | savedCount (point live saved : Nat)
  | unitDropped
  | calleeDropped
  | missingElement (table : String) (element : UInt64)
  | tooManySteps
  | unsavedPause
  | unresolved (kind name : String)
  | undeclarable (name : String)
  | unallocatable (label : String)
  | exitOrder
  | openScopes
  | strayKey
  | unpatchable (position : Nat)
  | tooManySlots
  | tooManyPoints
  | stated (detail : String)
deriving DecidableEq

def Inconsistency.detail : Inconsistency → String
  | unwrittenSlot n => s!"slot {n} read before it was written"
  | notAValue n => s!"slot {n} is not a value"
  | noSuchSlot n => s!"slot {n} out of range"
  | notABuffer n => s!"slot {n} is not a capture buffer"
  | missingBuffer => "capture ended without a buffer"
  | negativeCursor => "negative loop cursor"
  | cursorType t => s!"loop cursor holds a {t}"
  | loopListType t => s!"loop list slot holds a {t}"
  | foreignFrame name => s!"cannot resume a frame of `{name}`"
  | unknownPoint p => s!"unknown resume point {p}"
  | savedCount p live saved => s!"resume point {p} saves {live} slots, frame has {saved}"
  | unitDropped => "compiled unit was dropped while rendering"
  | calleeDropped => "directly bound callee was dropped"
  | missingElement table e => s!"metadata table `{table}` has no entry for element {e}"
  | tooManySteps => "activation does not end"
  | unsavedPause => "paused with nothing saved"
  | unresolved kind name => s!"unresolved {kind} reference `{name}`"
  | undeclarable name => s!"`{name}` declared outside of any scope"
  | unallocatable label => s!"temporary `{label}` allocated outside of any scope"
  | exitOrder => "scopes must be exited innermost first"
  | openScopes => "scopes left open after the template body"
  | unpatchable n => s!"op {n} has no jump target to patch"
  | strayKey => "`key` is only valid as a direct child of an open tag"
  | tooManySlots => "too many locals"
  | tooManyPoints => "too many resume points"
  | stated detail => detail

def Inconsistency.message (template : String) (i : Inconsistency) : String :=
  s!"internal consistency failure in `{template}`: {i.detail}"

inductive RenderError
  | data (e : DataError)
  | sink (e : SinkError)
  | templateNotFound (name : String)
  | delegateNotFound (name variant : String)
  | metadataNotFound (table : String) (element : UInt64)
  | callDepthExceeded (callee : String) (limit : Nat)
  | internal (template : String) (cause : Inconsistency)
  | alreadyComplete
  | doubleResume
  | wrongTemplate (expected actual : String)
deriving DecidableEq

namespace RenderError

def message : RenderError → String
  | data e => e.message
  | sink e => e.message
  | templateNotFound n => s!"no template named `{n}` is available to the render context"
  | delegateNotFound n v => s!"no implementation of delegate `{n}` for variant `{v}`"
  | metadataNotFound t e => s!"no visual element metadata for element {e} in `{t}`"
  | callDepthExceeded n limit => s!"call depth limit of {limit} exceeded while calling `{n}`"
  | internal t i => i.message t
  | alreadyComplete => "cannot resume a render that already completed"
  | doubleResume => "resume state was already consumed by an earlier resume"
  | wrongTemplate e a => s!"resume state belongs to `{e}`, not `{a}`"

def isFatal : RenderError → Bool
  | internal .. => true
  | _ => false

end RenderError

inductive CompileError
  | duplicateLocal (template name : String)
  | notConstant (template name : String)
  | duplicateTemplate (name : String)
  | internal (template : String) (cause : Inconsistency)
deriving DecidableEq

def CompileError.message : CompileError → String
  | duplicateLocal t n => s!"`{n}` is already declared in this scope of `{t}`"
  | notConstant t n => s!"initial value of `{n}` in `{t}` is not a compile-time constant"
  | duplicateTemplate n => s!"template `{n}` is defined more than once in this unit"
  | internal t i => i.message t

end ResumableTemplates
