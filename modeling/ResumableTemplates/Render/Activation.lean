import ResumableTemplates.Render.State

/-!
Activations: a compiled template while it runs, with its slots. Its sites find their targets on
first use, in their own unit if that has them and by lookup otherwise, and stay with that answer.
-/
namespace ResumableTemplates

structure Activation where
  unit : Nat
  template : CompiledTemplate
  params : Record
  locals : Array Local
  waiting : Option (Nat × List PendingCall)
  isHeld : TemplateRef → Bool

namespace Activation

def contradiction (a : Activation) (i : Inconsistency) : Except RenderError α :=
  .error (.internal a.template.name i)

def holds (a : Activation) (t : TemplateRef) : Bool :=
  a.isHeld t || Value.fieldsKeep t a.params || a.locals.any (·.mentions t) ||
    a.waiting.any (·.2.any (·.mentions t))

def isThere (env : Env) (a : Activation) (s : RenderState) (unit : Nat) (name : String) : Bool :=
  env.isAlive unit || env.isHeld (.compiled unit name) || a.holds (.compiled unit name) ||
    Value.fieldsKeep (.compiled unit name) env.injected || s.mentions (.compiled unit name)

def site (a : Activation) (index : Nat) (target : SiteTarget) : Site :=
  ⟨a.unit, a.template.name, index, target⟩

def bind (site : Site) (b : Binding) : Render Unit :=
  modify fun s => { s with bindings := s.bindings.insert site b }

def lookUp (env : Env) (use : Use) (name : String) : Render TemplateRef := do
  Render.note (.lookup use name)
  match env.lookup.template? name with
  | some t => return t
  | none => Render.fail (.templateNotFound name)

/-- The template that a site names. Its own unit is asked first, and has to be there for that; a
template found there is not kept by the site. -/
def resolve (env : Env) (a : Activation) (use : Use) (index : Nat) (name : String) :
    Render TemplateRef := do
  let site := a.site index (.template name)
  Render.note (.resolve site use name)
  let s ← get
  match s.bindings.find? site with
  | some .direct =>
    -- Whoever holds the template keeps it, whether its unit is there or not.
    if a.isThere env s a.unit name then return .compiled a.unit name
    else a.contradiction .calleeDropped
  | some _ => lookUp env use name
  | none =>
    if !env.isAlive a.unit then a.contradiction .unitDropped
    else if (env.library.compiled? a.unit name).isSome then
      bind site .direct
      return .compiled a.unit name
    else
      bind site .fallback
      lookUp env use name

def lookUpElement (env : Env) (table : String) (id : UInt64) : Render String := do
  Render.note (.describe table id)
  match env.lookup.element? table id with
  | some m => return m
  | none => Render.fail (.metadataNotFound table id)

/-- The metadata of an element in a table. If the unit has the table, it has to have the element;
what a site has found there once, it keeps. -/
def describe (env : Env) (a : Activation) (index : Nat) (table : String) (id : UInt64) :
    Render String := do
  let site := a.site index (.element table id)
  match (← get).bindings.find? site with
  | some (.described m) => return m
  | some _ => lookUpElement env table id
  | none =>
    if !env.isAlive a.unit then a.contradiction .unitDropped
    else match (env.library.units[a.unit]?).bind (·.tables.find? table) |>.map (·.find? id) with
      | some (some m) =>
        bind site (.described m)
        return m
      | some none => a.contradiction (.missingElement table id)
      | none =>
        bind site .fallback
        lookUpElement env table id

def set (a : Activation) (slot : Nat) (l : Local) : Except RenderError Activation :=
  if h : slot < a.locals.size then .ok { a with locals := a.locals.set slot l }
  else a.contradiction (.noSuchSlot slot)

def value (a : Activation) (slot : Nat) : Except RenderError Value :=
  match (a.locals[slot]?).bind Local.value? with
  | some v => .ok v
  | none => a.contradiction (.notAValue slot)

def cursor (a : Activation) (slot : Nat) : Except RenderError Nat :=
  match a.locals[slot]? with
  | some (.cursor n) => .ok n
  | some (.value (.int n)) =>
    if n < 0 then a.contradiction .negativeCursor else .ok n.toInt.toNat
  | some (.value v) => a.contradiction (.cursorType v.typeName)
  | _ => a.contradiction (.notAValue slot)

def buffer (a : Activation) (slot : Nat) : Except RenderError String :=
  match a.locals[slot]? with
  | some (.buffer s) => .ok s
  | _ => a.contradiction (.notABuffer slot)

end Activation

def Activation.variable (a : Activation) (slot : Nat) : Except RenderError Value :=
  match (a.locals[slot]?).bind Local.value? with
  | some v => .ok v
  | none => a.contradiction (.unwrittenSlot slot)

def Render.forced (env : Env) (r : Render Value) : Render Value := do Render.force env (← r)

namespace Code

mutual

/-- The value of an expression. A lazy value that is read straight from a variable stays lazy; every
operand is forced, from left to right. -/
def read (env : Env) (a : Activation) : Code → Render Value
  | const v => return v
  | slot n => a.variable n
  | injected name => return Record.read env.injected name
  | binary op l r => do
    let x ← Render.forced env (l.read env a)
    match op.decidedBy? x with
    | some v => return v
    | none => Render.ofData (Value.binary op x (← Render.forced env (r.read env a)))
  | unary op e => do Render.ofData (Value.unary op (← Render.forced env (e.read env a)))
  | cond c t e => do
    if (← Render.forced env (c.read env a)).isTruthy then Render.forced env (t.read env a)
    else Render.forced env (e.read env a)
  | list cs => return .list (← readAll env a cs)
  | record fs => return .record (Record.ofList (← readFields env a fs))
  | field b name nullSafe => do
    Render.ofData ((← Render.forced env (b.read env a)).fieldOf name nullSafe)
  | index b k => do
    let base ← Render.forced env (b.read env a)
    let key ← Render.forced env (k.read env a)
    Render.ofData (base.item key)
  | builtin f cs => do Render.ofData (Value.apply f (← readAll env a cs))
  | template i name => do
    let t ← a.resolve env .literal i name
    return .template (env.library.nameOf t) t
  | element id name none => return .element ⟨id, name, none⟩
  | element id name (some (i, table)) => do
    return .element ⟨id, name, some (← a.describe env i table id)⟩

def readAll (env : Env) (a : Activation) : List Code → Render (List Value)
  | [] => return []
  | c :: cs => do
    let v ← Render.forced env (c.read env a)
    return v :: (← readAll env a cs)

def readFields (env : Env) (a : Activation) :
    List (String × Code) → Render (List (String × Value))
  | [] => return []
  | (k, c) :: fs => do
    let v ← Render.forced env (c.read env a)
    return (k, v) :: (← readFields env a fs)

end

def eval (env : Env) (a : Activation) (c : Code) : Render Value :=
  Render.forced env (c.read env a)

end Code

end ResumableTemplates
