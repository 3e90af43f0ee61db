import ResumableTemplates.Compile.Fold
import ResumableTemplates.Proofs.Render.World

/-! The meaning of source templates: what they write and come to when their tree is gone through as it
is, with variables by name. A `let` names its value from there to the end of its block, and an open tag
opens none. A lazy value stands for what it yields. -/
namespace ResumableTemplates

structure Written (α : Type) where
  text : String
  result : Except RenderError α

namespace Written

def bind (x : Written α) (f : α → Written β) : Written β :=
  match x.result with
  | .ok a => ⟨x.text ++ (f a).text, (f a).result⟩
  | .error e => ⟨x.text, .error e⟩

instance : Monad Written where
  pure a := ⟨"", .ok a⟩
  bind := bind

instance : MonadLift (Except RenderError) Written := ⟨fun r => ⟨"", r⟩⟩

def write (s : String) : Written Unit := ⟨s, .ok ()⟩

def fail (e : RenderError) : Written α := ⟨"", .error e⟩

/-- What was written as part of the result. Of what fails nothing is left. -/
def captured (x : Written α) : Written String := ⟨"", x.result.map fun _ => x.text⟩

def forItems (f : Nat → Value → Written Unit) : Nat → List Value → Written Unit
  | _, [] => return
  | i, v :: vs => do
    f i v
    forItems f (i + 1) vs

end Written

structure Names where
  params : Record
  vars : List (VarRef × Value)

namespace Names

def bind (ρ : Names) (v : VarRef) (u : Value) : Names := { ρ with vars := (v, u) :: ρ.vars }

def find? (ρ : Names) : VarRef → Option Value
  | .param n => (ρ.vars.lookup (.param n)).or (ρ.vars.lookup (.injected n))
  | v => ρ.vars.lookup v

def read (ρ : Names) (injected : Record) : VarRef → Value
  | .injected n => (ρ.find? (.injected n)).getD (Record.read injected n)
  | v => (ρ.find? v).getD .null

def item (ρ : Names) (var : String) (index : Option String) (i : Nat) (v : Value) : Names :=
  match index with
  | none => ρ.bind (.bound var) v
  | some name => (ρ.bind (.bound var) v).bind (.bound name) (.int (.ofNat i))

end Names

/-- Template files, and what they are rendered with. -/
structure Sources where
  files : List (List TemplateFile)
  library : Library
  lookup : Lookup
  maxDepth : Nat
  injected : Record

namespace Sources

def source? (S : Sources) (unit : Nat) (name : String) : Option Template :=
  (S.files[unit]?).bind fun files => (files.flatMap (·.templates)).find? (·.name = name)

def find (S : Sources) (unit : Nat) (name : String) : Except RenderError TemplateRef :=
  if (S.source? unit name).isSome then .ok (.compiled unit name)
  else
    match S.lookup.template? name with
    | some t => .ok t
    | none => .error (.templateNotFound name)

def describe (S : Sources) (unit : Nat) (owner table : String) (id : UInt64) :
    Except RenderError String :=
  match S.library.own unit table id with
  | some (some m) => .ok m
  | some none => .error (.internal owner (.missingElement table id))
  | none =>
    match S.lookup.element? table id with
    | some m => .ok m
    | none => .error (.metadataNotFound table id)

end Sources

section Expressions

variable (S : Sources) (unit : Nat) (owner : String) (ρ : Names)

namespace Expr

mutual

/-- The value of an expression, lazy only if it is read straight from a variable. -/
def meaning : Expr → Except RenderError Value
  | literal l => .ok l.value
  | var v => .ok (ρ.read S.injected v)
  | binary op l r => do
    let x := (← l.meaning).forced
    match op.decidedBy? x with
    | some v => return v
    | none => Render.ofData (Value.binary op x (← r.meaning).forced)
  | unary op e => do Render.ofData (Value.unary op (← e.meaning).forced)
  | cond c t e => do
    if (← c.meaning).forced.isTruthy then return (← t.meaning).forced
    else return (← e.meaning).forced
  | list es => return .list (← meanings es)
  | record fs => return .record (Record.ofList (← fieldMeanings fs))
  | field b name nullSafe => do Render.ofData ((← b.meaning).forced.fieldOf name nullSafe)
  | index b k => do
    let base := (← b.meaning).forced
    let key := (← k.meaning).forced
    Render.ofData (base.item key)
  | builtin f es => do Render.ofData (Value.apply f (← meanings es))
  | template name => do
    let t ← S.find unit name
    return .template (S.library.nameOf t) t
  | element id name none => return .element ⟨id, name, none⟩
  | element id name (some table) => do
    return .element ⟨id, name, some (← S.describe unit owner table id)⟩

def meanings : List Expr → Except RenderError (List Value)
  | [] => return []
  | e :: es => do
    let v := (← e.meaning).forced
    return v :: (← meanings es)

def fieldMeanings : List (String × Expr) → Except RenderError (List (String × Value))
  | [] => return []
  | (k, e) :: fs => do
    let v := (← e.meaning).forced
    return (k, v) :: (← fieldMeanings fs)

end

def outcome (e : Expr) : Except RenderError Value := return (← e.meaning S unit owner ρ).forced

def matched (subject : Value) : List Expr → Except RenderError Bool
  | [] => return false
  | e :: es => do
    if subject.looseEq (← e.outcome S unit owner ρ) then return true else matched subject es

end Expr

def CallData.meaning : CallData → Except RenderError Record
  | none => return []
  | all => return ρ.params
  | expr e => do Activation.recordOf (← e.outcome S unit owner ρ)

def CallTarget.meaning : CallTarget → Except RenderError (Option TemplateRef)
  | template name => some <$> S.find unit name
  | delegate name variant allowEmpty => do
    let v ← match variant with
      | none => pure ""
      | some e => Activation.variantOf <$> e.outcome S unit owner ρ
    match S.lookup.delegate? name v with
    | some t => return some t
    | none => if allowEmpty then return none else .error (.delegateNotFound name v)

def Arg.layAll : Record → List Arg → List Value → Except RenderError Record
  | r, [], _ => return r
  | r, .value name e :: as, cs => do layAll (Record.insert r name (← e.meaning S unit owner ρ)) as cs
  | r, .content name .. :: as, c :: cs => layAll (Record.insert r name c) as cs
  | r, .content .. :: as, [] => layAll r as []

def Param.meaning (p : Param) : Except RenderError Value :=
  let v := Record.read (if p.isInjected then S.injected else ρ.params) p.name
  if v.isNull then
    match p.default with
    | none => return .null
    | some e => e.meaning S unit owner ρ
  else return v

def Param.ref (p : Param) : VarRef := if p.isInjected then .injected p.name else .param p.name

end Expressions

section Statements

variable (S : Sources) (run : TemplateRef → Record → Written Unit) (unit : Nat) (owner : String)

namespace Node

mutual

/-- What a statement writes, and the names behind it. -/
def interpret : Node → Names → Written Names
  | text s, ρ => do
    Written.write s
    return ρ
  | print e, ρ => do
    Written.write (← e.outcome S unit owner ρ).display
    return ρ
  | branch bs o, ρ => do
    interpretBranches bs (interpretElse o) ρ
    return ρ
  | switch e cs o, ρ => do
    interpretCases (← e.outcome S unit owner ρ) cs (interpretElse o) ρ
    return ρ
  | each var index items b ifEmpty, ρ => do
    match ← items.outcome S unit owner ρ with
    | .list [] => interpretElse ifEmpty ρ
    | .list vs => Written.forItems (fun i v => do
        let _ ← interpretBlock b (ρ.item var index i v)) 0 vs
    | v => Written.fail (.data (.notIterable v.typeName))
    return ρ
  | bind name e, ρ => do
    return ρ.bind (.bound name) (← e.meaning S unit owner ρ)
  | capture name kind b, ρ => do
    let text ← (interpretBlock b ρ).captured
    return ρ.bind (.bound name) (Activation.captured kind.rendered text)
  | call target data as, ρ => do
    let contents ← interpretContents as ρ
    let params ← Arg.layAll S unit owner ρ (← data.meaning S unit owner ρ) as contents
    match ← target.meaning S unit owner ρ with
    | none => pure ()
    | some t => run t params
    return ρ
  | tag name children selfClosing, ρ => do
    Written.write ("<" ++ name)
    let ρ ← interpretChildren children ρ
    Written.write (if selfClosing then "/>" else ">")
    return ρ
  | key _, ρ => return ρ

def interpretBlock : List Node → Names → Written Names
  | [], ρ => return ρ
  | n :: ns, ρ => do interpretBlock ns (← n.interpret ρ)

def interpretElse : Option (List Node) → Names → Written Unit
  | none, _ => return
  | some b, ρ => do
    let _ ← interpretBlock b ρ

def interpretBranches : List (Expr × List Node) → (Names → Written Unit) → Names → Written Unit
  | [], otherwise, ρ => otherwise ρ
  | (e, b) :: bs, otherwise, ρ => do
    if (← e.outcome S unit owner ρ).isTruthy then
      let _ ← interpretBlock b ρ
    else interpretBranches bs otherwise ρ

def interpretCases (subject : Value) :
    List (List Expr × List Node) → (Names → Written Unit) → Names → Written Unit
  | [], otherwise, ρ => otherwise ρ
  | (es, b) :: cs, otherwise, ρ => do
    if ← Expr.matched S unit owner ρ subject es then
      let _ ← interpretBlock b ρ
    else interpretCases subject cs otherwise ρ

def interpretContents : List Arg → Names → Written (List Value)
  | [], _ => return []
  | .value .. :: as, ρ => interpretContents as ρ
  | .content _ kind b :: as, ρ => do
    let text ← (interpretBlock b ρ).captured
    return Activation.captured kind.rendered text :: (← interpretContents as ρ)

/-- The children of an open tag, which name what they bind in the block around it. A key writes
nothing. -/
def interpretChildren : List Node → Names → Written Names
  | [], ρ => return ρ
  | .key _ :: ns, ρ => interpretChildren ns ρ
  | n :: ns, ρ => do interpretChildren ns (← n.interpret ρ)

end

end Node

namespace Template

def bindParams : Names → List Param → Except RenderError Names
  | ρ, [] => return ρ
  | ρ, p :: ps => do bindParams (ρ.bind p.ref (← p.meaning S unit owner ρ)) ps

def bindState : Names → List StateVar → Except RenderError Names
  | ρ, [] => return ρ
  | ρ, v :: vs => do
    bindState (ρ.bind (.state v.name) (← v.initial.meaning S unit owner ρ)) vs

def interpret (t : Template) (params : Record) : Written Unit := do
  let ρ ← bindParams S unit t.name ⟨params, []⟩ t.params
  let ρ ← bindState S unit t.name ρ t.state
  let _ ← Node.interpretBlock S run unit t.name t.body ρ

end Template

end Statements

def HostTemplate.texts : HostTemplate → List String
  | probe _ => []
  | parts _ texts => texts

namespace Sources

variable (S : Sources)

def renderTemplate (run : TemplateRef → Record → Written Unit) (t : TemplateRef) (params : Record) :
    Written Unit :=
  match t with
  | .compiled unit name =>
    match S.source? unit name with
    | some t => t.interpret S run unit params
    | none => .fail (.templateNotFound name)
  | .host i =>
    match S.library.hosts[i]? with
    | some h => .write (String.join h.texts)
    | none => .fail (.templateNotFound "")

/-- What a template writes where calls nest at most that many levels deep. -/
def render : (levels : Nat) → TemplateRef → Record → Written Unit
  | 0 => S.renderTemplate fun t _ => .fail (.callDepthExceeded (S.library.nameOf t) S.maxDepth)
  | levels + 1 => S.renderTemplate (render levels)

end Sources

end ResumableTemplates
