import ResumableTemplates.Render.Activation

/-!
One op of an activation. First it is found out what the op does, which changes nothing that a pause
would have to undo; then that is done. An op leads on to a position, or pauses the activation; calls
under way inside it are then part of what is saved. A call hands over to whatever renders callees.
-/
namespace ResumableTemplates

/-- Renders a callee, afresh or from where it was stopped, with its parameters; the last argument
holds of the templates that the callers keep. -/
abbrev Runner :=
  TemplateRef → Option Frames → Record → (TemplateRef → Bool) → Render FrameOutcome

/-- What an op does once all it needs is known, and where it goes on after that. -/
inductive Action
  | goto (position : Nat) (a : Activation)
  | write (text : String) (position : Nat) (a : Activation)
  | call (out : Output) (callee : TemplateRef) (frames : Option Frames) (params : Record)
      (position : Nat) (a : Activation)

inductive Progress
  | goto (position : Nat) (a : Activation)
  | paused (reason : PauseReason) (a : Activation) (calls : List PendingCall)

namespace Activation

def emit (a : Activation) (out : Output) (text : String) (position : Nat) :
    Except RenderError Action :=
  match out with
  | .sink => .ok (.write text position a)
  | .buffer slot => do return .goto position (← a.set slot (.buffer ((← a.buffer slot) ++ text)))

def matchesAny (env : Env) (a : Activation) (subject : Value) : List Code → Render Bool
  | [] => return false
  | c :: cs => do
    if subject.looseEq (← c.eval env a) then return true else matchesAny env a subject cs

def recordOf : Value → Except RenderError Record
  | .record r => .ok r
  | .null => .ok []
  | v => .error (.data (.notRecord v.typeName))

def baseRecord (env : Env) (a : Activation) : ParamsBase → Render Record
  | .none => return []
  | .all => return a.params
  | .code c => do recordOf (← c.eval env a)

def layArgs (env : Env) (a : Activation) : Record → List (String × ArgSource) → Render Record
  | r, [] => return r
  | r, (name, .code c) :: args => do
    layArgs env a (Record.insert r name (← c.read env a)) args
  | r, (name, .slot n) :: args => do
    layArgs env a (Record.insert r name (← a.value n)) args

def variantOf : Value → String
  | .null => ""
  | v => v.display

def variantText (env : Env) (a : Activation) : Option Code → Render String
  | none => return ""
  | some c => return variantOf (← c.eval env a)

def findCallee (env : Env) (a : Activation) : Callee → Render (Option TemplateRef)
  | .template i name => some <$> a.resolve env .call i name
  | .delegate name variant allowEmpty => do
    let v ← a.variantText env variant
    Render.note (.select a.unit a.template.name name v)
    match env.lookup.delegate? name v with
    | some t => return some t
    | none => if allowEmpty then return none else Render.fail (.delegateNotFound name v)

def waitingAt? (a : Activation) (point : Nat) : Option (PendingCall × List PendingCall) :=
  match a.waiting with
  | some (at_, c :: cs) => if at_ = point then some (c, cs) else none
  | _ => none

/-- A call: the one under way is continued, with the callee and the parameters it had; else the
parameters are evaluated first and the callee is found after that. -/
def planCall (env : Env) (a : Activation) (position point : Nat) (out : Output) (callee : Callee)
    (base : ParamsBase) (args : List (String × ArgSource)) : Render Action :=
  match a.waitingAt? point with
  | some (c, cs) =>
    return .call out c.callee (some ⟨c.saved, cs⟩) c.params (position + 1)
      { a with waiting := none }
  | none => do
    let params ← a.layArgs env (← a.baseRecord env base) args
    match ← a.findCallee env callee with
    | none => return .goto (position + 1) a
    | some t => return .call out t none params (position + 1) a

def captured : ContentKind → String → Value
  | .text, s => .str s
  | kind, s => .content kind s

def beginLoop (a : Activation) (position list cursor : Nat) (onEmpty : Option Nat) :
    Value → Except RenderError Action
  | .list vs => do
    let a ← a.set list (.value (.list vs))
    let a ← a.set cursor (.cursor 0)
    match onEmpty, vs with
    | some target, [] => return .goto target a
    | _, _ => return .goto (position + 1) a
  | v => .error (.data (.notIterable v.typeName))

def nextItem (a : Activation) (position list cursor item : Nat) (index : Option Nat)
    (exit : Nat) : Except RenderError Action := do
  let n ← a.cursor cursor
  match ← a.value list with
  | .list vs =>
    match vs[n]? with
    | none => return .goto exit a
    | some v =>
      let a ← a.set item (.value v)
      let a ← match index with
        | none => pure a
        | some slot => a.set slot (.value (.int (.ofNat n)))
      return .goto (position + 1) (← a.set cursor (.cursor (n + 1)))
  | v => a.contradiction (.loopListType v.typeName)

def endCapture (a : Activation) (position buffer dest : Nat) (kind : ContentKind) :
    Except RenderError Action := do
  match a.locals[buffer]? with
  | none => a.contradiction (.noSuchSlot buffer)
  | some (.buffer text) =>
    let a ← a.set buffer .unset
    return .goto (position + 1) (← a.set dest (.value (captured kind text)))
  | some _ => a.contradiction .missingBuffer

def plan (env : Env) (a : Activation) (position : Nat) : Op → Render Action
  | .text _ out s => a.emit out s (position + 1)
  | .print _ out c => do a.emit out (← c.eval env a).display (position + 1)
  | .store _ slot c forces => do
    let v ← if forces then c.eval env a else c.read env a
    return .goto (position + 1) (← a.set slot (.value v))
  | .branchUnless _ c target => do
    return .goto (if (← c.eval env a).isTruthy then position + 1 else target) a
  | .branchUnlessMatch _ subject cases target => do
    return .goto (if ← a.matchesAny env (← a.value subject) cases then position + 1 else target) a
  | .jump target => return .goto target a
  | .forInit _ c list cursor onEmpty => do
    a.beginLoop position list cursor onEmpty (← c.eval env a)
  | .forNext list cursor item index exit => a.nextItem position list cursor item index exit
  | .beginCapture buffer => do return .goto (position + 1) (← a.set buffer (.buffer ""))
  | .endCapture buffer dest kind => a.endCapture position buffer dest kind
  | .call point out callee base args => a.planCall env position point out callee base args

def awaitSink : Render Unit := do
  if ← Render.takeHold then throw (.pause .sinkNotReady)
  match ← Render.poll with
  | .ready => return ()
  | .notReady => throw (.pause .sinkNotReady)

/-- Writes a text to the sink, which may ask for a pause after that. -/
def writeSink (text : String) : Render Unit := do
  match ← Render.append text with
  | .ready => return ()
  | .notReady => Render.holdSink

/-- Renders a callee one level deeper, into the sink or into a buffer. What the callee leaves in
the buffer is there also if it pauses. -/
def enter (env : Env) (run : Runner) (a : Activation) (out : Output) (callee : TemplateRef)
    (frames : Option Frames) (params : Record) : Render (FrameOutcome × Activation) :=
  let held := fun t => callee = t || a.holds t || Value.fieldsKeep t params
  Render.deeper env (env.library.nameOf callee) do
    match out with
    | .sink => return (← run callee frames params held, a)
    | .buffer slot =>
      let text ← a.buffer slot
      let (outcome, text) ← Render.capturing text (run callee frames params held)
      return (outcome, ← a.set slot (.buffer text))

def perform (env : Env) (run : Runner) : Action → Render Progress
  | .goto position a => return .goto position a
  | .write text position a => do
    awaitSink
    writeSink text
    return .goto position a
  | .call out callee frames params position a => do
    let (outcome, a) ← a.enter env run out callee frames params
    match outcome with
    | .done => return .goto position a
    | .paused f reason => return .paused reason a (⟨callee, params, f.outer⟩ :: f.calls)

def step (env : Env) (run : Runner) (a : Activation) (position : Nat) (op : Op) :
    Render Progress := do
  perform env run (← a.plan env position op)

end Activation

end ResumableTemplates
