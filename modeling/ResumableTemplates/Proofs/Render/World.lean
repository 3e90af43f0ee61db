import ResumableTemplates.Proofs.Render.Deeds
import ResumableTemplates.Proofs.Value.Lazy

/-! What a render comes down to when nothing is put off: a world in which every provider has its
value and every site its target, so that evaluation is a plain function. -/
namespace ResumableTemplates

/-- What a render reads, its schedule aside. The target of a site is found by its unit, its
template, its number and what it names. -/
structure World where
  library : Library
  lookup : Lookup
  maxDepth : Nat
  injected : Record
  template : (unit : Nat) → (template : String) → (index : Nat) → (name : String) →
    Except RenderError TemplateRef
  element : (unit : Nat) → (template : String) → (index : Nat) → (table : String) →
    (id : UInt64) → Except RenderError String
  isLookedUp : (unit : Nat) → (template : String) → (index : Nat) → (name : String) → Bool

def Library.own (lib : Library) (unit : Nat) (table : String) (id : UInt64) :
    Option (Option String) :=
  ((lib.units[unit]?).bind (·.tables.find? table)).map (·.find? id)

namespace Env

def lookUp (env : Env) (name : String) : Except RenderError TemplateRef :=
  match env.lookup.template? name with
  | some t => .ok t
  | none => .error (.templateNotFound name)

def lookUpElement (env : Env) (table : String) (id : UInt64) : Except RenderError String :=
  match env.lookup.element? table id with
  | some m => .ok m
  | none => .error (.metadataNotFound table id)

/-- The world of a render in which sites have found what `bindings` says. -/
def world (env : Env) (bindings : Table Site Binding) : World where
  library := env.library
  lookup := env.lookup
  maxDepth := env.maxDepth
  injected := env.injected
  template unit template index name :=
    match bindings.find? ⟨unit, template, index, .template name⟩ with
    | some .direct => .ok (.compiled unit name)
    | some _ => env.lookUp name
    | none =>
      if (env.library.compiled? unit name).isSome then .ok (.compiled unit name)
      else env.lookUp name
  element unit template index table id :=
    match bindings.find? ⟨unit, template, index, .element table id⟩ with
    | some (.described m) => .ok m
    | some _ => env.lookUpElement table id
    | none =>
      match env.library.own unit table id with
      | some (some m) => .ok m
      | some none => .error (.internal template (.missingElement table id))
      | none => env.lookUpElement table id
  isLookedUp unit template index name :=
    match bindings.find? ⟨unit, template, index, .template name⟩ with
    | some .direct => false
    | some _ => true
    | none => (env.library.compiled? unit name).isNone

theorem world_template (env : Env) (bindings : Table Site Binding) (unit : Nat) (template : String)
    (index : Nat) (name : String) :
    (env.world bindings).template unit template index name =
      if (env.world bindings).isLookedUp unit template index name then env.lookUp name
      else .ok (.compiled unit name) := by
  cases hb : bindings.find? ⟨unit, template, index, .template name⟩ with
  | some b => cases b <;> simp [world, hb]
  | none => cases hc : env.library.compiled? unit name <;> simp [world, hb, hc]

end Env

namespace Code

mutual

def value (w : World) (a : Activation) : Code → Except RenderError Value
  | const v => .ok v
  | slot n => a.variable n
  | injected name => .ok (Record.read w.injected name)
  | binary op l r => do
    let x := (← l.value w a).forced
    match op.decidedBy? x with
    | some v => return v
    | none => Render.ofData (Value.binary op x (← r.value w a).forced)
  | unary op e => do Render.ofData (Value.unary op (← e.value w a).forced)
  | cond c t e => do
    if (← c.value w a).forced.isTruthy then return (← t.value w a).forced
    else return (← e.value w a).forced
  | list cs => return .list (← values w a cs)
  | record fs => return .record (Record.ofList (← fields w a fs))
  | field b name nullSafe => do Render.ofData ((← b.value w a).forced.fieldOf name nullSafe)
  | index b k => do
    let base := (← b.value w a).forced
    let key := (← k.value w a).forced
    Render.ofData (base.item key)
  | builtin f cs => do Render.ofData (Value.apply f (← values w a cs))
  | template i name => do
    let t ← w.template a.unit a.template.name i name
    return .template (w.library.nameOf t) t
  | element id name none => return .element ⟨id, name, none⟩
  | element id name (some (i, table)) => do
    return .element ⟨id, name, some (← w.element a.unit a.template.name i table id)⟩

def values (w : World) (a : Activation) : List Code → Except RenderError (List Value)
  | [] => return []
  | c :: cs => do
    let v := (← c.value w a).forced
    return v :: (← values w a cs)

def fields (w : World) (a : Activation) :
    List (String × Code) → Except RenderError (List (String × Value))
  | [] => return []
  | (k, c) :: fs => do
    let v := (← c.value w a).forced
    return (k, v) :: (← fields w a fs)

end

def result (w : World) (a : Activation) (c : Code) : Except RenderError Value :=
  return (← c.value w a).forced

end Code

namespace Activation

variable (w : World) (a : Activation)

def matched (subject : Value) : List Code → Except RenderError Bool
  | [] => return false
  | c :: cs => do
    if subject.looseEq (← c.result w a) then return true else matched subject cs

def base : ParamsBase → Except RenderError Record
  | .none => return []
  | .all => return a.params
  | .code c => do recordOf (← c.result w a)

def withArgs : Record → List (String × ArgSource) → Except RenderError Record
  | r, [] => return r
  | r, (name, .code c) :: args => do withArgs (Record.insert r name (← c.value w a)) args
  | r, (name, .slot n) :: args => do withArgs (Record.insert r name (← a.value n)) args

def variant : Option Code → Except RenderError String
  | none => return ""
  | some c => return variantOf (← c.result w a)

def callee : Callee → Except RenderError (Option TemplateRef)
  | .template i name => some <$> w.template a.unit a.template.name i name
  | .delegate name v allowEmpty => do
    let v ← a.variant w v
    match w.lookup.delegate? name v with
    | some t => return some t
    | none => if allowEmpty then return none else .error (.delegateNotFound name v)

def callAction (position point : Nat) (out : Output) (callee : Callee) (base : ParamsBase)
    (args : List (String × ArgSource)) : Except RenderError Action :=
  match a.waitingAt? point with
  | some (c, cs) =>
    return .call out c.callee (some ⟨c.saved, cs⟩) c.params (position + 1)
      { a with waiting := none }
  | none => do
    let params ← a.withArgs w (← a.base w base) args
    match ← a.callee w callee with
    | none => return .goto (position + 1) a
    | some t => return .call out t none params (position + 1) a

def action (position : Nat) : Op → Except RenderError Action
  | .text _ out s => a.emit out s (position + 1)
  | .print _ out c => do a.emit out (← c.result w a).display (position + 1)
  | .store _ slot c forces => do
    let v ← if forces then c.result w a else c.value w a
    return .goto (position + 1) (← a.set slot (.value v))
  | .branchUnless _ c target => do
    return .goto (if (← c.result w a).isTruthy then position + 1 else target) a
  | .branchUnlessMatch _ subject cases target => do
    return .goto (if ← a.matched w (← a.value subject) cases then position + 1 else target) a
  | .jump target => return .goto target a
  | .forInit _ c list cursor onEmpty => do
    a.beginLoop position list cursor onEmpty (← c.result w a)
  | .forNext list cursor item index exit => a.nextItem position list cursor item index exit
  | .beginCapture buffer => do return .goto (position + 1) (← a.set buffer (.buffer ""))
  | .endCapture buffer dest kind => a.endCapture position buffer dest kind
  | .call point out callee base args => a.callAction w position point out callee base args

def seeking : Callee → List Event
  | .template i name => .resolve (a.site i (.template name)) .call name ::
    if w.isLookedUp a.unit a.template.name i name then [.lookup .call name] else []
  | .delegate name v _ =>
    match a.variant w v with
    | .ok text => [.select a.unit a.template.name name text]
    | .error _ => []

/-- What an op does to find a callee. That is done for a call that has its arguments; one that is under
way has its callee. -/
def seeks : Op → List Deed
  | .call point _ callee base args =>
    match a.waitingAt? point, (do a.withArgs w (← a.base w base) args) with
    | none, .ok _ => (a.seeking w callee).map .seek
    | _, _ => []
  | _ => []

@[simp] theorem texts_seeks (op : Op) : Deed.texts (a.seeks w op) = [] := by
  unfold seeks
  split
  · split
    · exact Deed.texts_seek _
    · rfl
  · rfl

@[simp] theorem seen_seeks (isCaptured : Bool) (op : Op) :
    Deed.seen isCaptured (a.seeks w op) = a.seeks w op := by
  unfold seeks
  split
  · split
    · exact Deed.seen_seek _ _
    · exact Deed.seen_nil _
  · exact Deed.seen_nil _

theorem seeks_of_waiting {point : Nat} (h : a.waitingAt? point ≠ none) {out : Output}
    {callee : Callee} {base : ParamsBase} {args : List (String × ArgSource)} :
    a.seeks w (.call point out callee base args) = [] := by
  obtain ⟨c, hc⟩ := Option.ne_none_iff_exists'.1 h
  simp only [seeks, hc]

variable {w a}

theorem waitingAt?_of_waiting {point : Nat} {c : PendingCall} {cs : List PendingCall}
    (h : a.waiting = some (point, c :: cs)) : a.waitingAt? point = some (c, cs) := by
  simp only [waitingAt?, h, if_true]

theorem action_of_waiting {p point : Nat} {c : PendingCall} {cs : List PendingCall}
    (h : a.waitingAt? point = some (c, cs)) {out : Output} {callee : Callee} {base : ParamsBase}
    {args : List (String × ArgSource)} : a.action w p (.call point out callee base args) =
      .ok (.call out c.callee (some ⟨c.saved, cs⟩) c.params (p + 1) { a with waiting := none }) := by
  simp only [action, callAction, h]
  rfl

end Activation

end ResumableTemplates
