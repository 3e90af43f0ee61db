import ResumableTemplates.Proofs.Compile.Folding
import ResumableTemplates.Proofs.Meaning.Interpreter
import Mathlib.Algebra.Group.Defs

/-! The scope rules of the template language, told on the tree alone: what is declared where, what a
reference may name, and how many slots and resume points a template needs. -/
namespace ResumableTemplates

/-- The variables declared at a point of a template: in the innermost of the open scopes, and in those
around it. -/
structure OpenScopes where
  inner : List VarRef
  outer : List VarRef

namespace OpenScopes

variable (Γ : OpenScopes)

def enter : OpenScopes := ⟨[], Γ.inner ++ Γ.outer⟩

def declare (v : VarRef) : OpenScopes := { Γ with inner := v :: Γ.inner }

def declareAll (vs : List VarRef) : OpenScopes := vs.foldl declare Γ

def Declares (v : VarRef) : Prop := v ∈ Γ.inner ∨ v ∈ Γ.outer

def Lacks (name : String) : Prop := ∀ v ∈ Γ.inner, v.name ≠ name

def Resolves : VarRef → Prop
  | .param n => Γ.Declares (.param n) ∨ Γ.Declares (.injected n)
  | .injected _ => True
  | v => Γ.Declares v

def Covers (visits : List Visit) : Prop := ∀ v, .expr (.var v) ∈ visits → Γ.Resolves v

def loop (var : String) : Option String → OpenScopes
  | .none => Γ.enter.declare (.bound var)
  | some index => (Γ.enter.declare (.bound var)).declare (.bound index)

end OpenScopes

namespace Node

mutual

/-- The scopes behind a statement. An open tag opens none, so what its children declare is declared
around it. -/
def leaves (Γ : OpenScopes) : Node → OpenScopes
  | bind name _ | capture name .. => Γ.declare (.bound name)
  | tag _ children _ => leavesAll Γ children
  | _ => Γ

def leavesAll (Γ : OpenScopes) : List Node → OpenScopes
  | [] => Γ
  | n :: ns => leavesAll (n.leaves Γ) ns

end

mutual

def Scoped (Γ : OpenScopes) : Node → Prop
  | text _ => True
  | print e => Γ.Covers e.visits
  | branch bs o => BranchesScoped Γ bs ∧
      match o with
      | none => True
      | some b => BlockScoped Γ.enter b
  | switch e cs o => Γ.Covers e.visits ∧ CasesScoped Γ cs ∧
      match o with
      | none => True
      | some b => BlockScoped Γ.enter b
  | each var index items b ifEmpty =>
      Γ.Covers items.visits ∧ index ≠ some var ∧ BlockScoped (Γ.loop var index).enter b ∧
      match ifEmpty with
      | none => True
      | some b => BlockScoped Γ.enter b
  | bind name e => Γ.Covers e.visits ∧ Γ.Lacks name
  | capture name _ b => BlockScoped Γ.enter b ∧ Γ.Lacks name
  | call target data as => ArgsScoped Γ as ∧ Γ.Covers data.visits ∧ Γ.Covers target.visits
  | tag _ children _ => ChildrenScoped Γ children
  | key _ => False

def BlockScoped (Γ : OpenScopes) : List Node → Prop
  | [] => True
  | n :: ns => n.Scoped Γ ∧ BlockScoped (n.leaves Γ) ns

def BranchesScoped (Γ : OpenScopes) : List (Expr × List Node) → Prop
  | [] => True
  | (e, b) :: bs => Γ.Covers e.visits ∧ BlockScoped Γ.enter b ∧ BranchesScoped Γ bs

def CasesScoped (Γ : OpenScopes) : List (List Expr × List Node) → Prop
  | [] => True
  | (es, b) :: cs => Γ.Covers (Expr.visitsAll es) ∧ BlockScoped Γ.enter b ∧ CasesScoped Γ cs

def ArgsScoped (Γ : OpenScopes) : List Arg → Prop
  | [] => True
  | .value _ e :: as => Γ.Covers e.visits ∧ ArgsScoped Γ as
  | .content _ _ b :: as => BlockScoped Γ.enter b ∧ ArgsScoped Γ as

def ChildrenScoped (Γ : OpenScopes) : List Node → Prop
  | [] => True
  | .key e :: ns => Γ.Covers e.visits ∧ ChildrenScoped Γ ns
  | n :: ns => n.Scoped Γ ∧ ChildrenScoped (n.leaves Γ) ns

end

end Node

/-- How many slots and resume points something needs. -/
@[ext] structure Need where
  slots : Nat
  points : Nat

namespace Need

instance : Zero Need := ⟨⟨0, 0⟩⟩

instance : Add Need := ⟨fun m n => ⟨m.slots + n.slots, m.points + n.points⟩⟩

@[simp] theorem zero_slots : (0 : Need).slots = 0 := rfl

@[simp] theorem zero_points : (0 : Need).points = 0 := rfl

@[simp] theorem add_slots (m n : Need) : (m + n).slots = m.slots + n.slots := rfl

@[simp] theorem add_points (m n : Need) : (m + n).points = m.points + n.points := rfl

instance : AddCommMonoid Need where
  add_assoc k l m := by ext <;> exact Nat.add_assoc ..
  zero_add k := by ext <;> exact Nat.zero_add _
  add_zero k := by ext <;> exact Nat.add_zero _
  add_comm k l := by ext <;> exact Nat.add_comm ..
  nsmul := nsmulRec

def slot : Need := ⟨1, 0⟩

def point : Need := ⟨0, 1⟩

@[simp] theorem slot_slots : slot.slots = 1 := rfl

@[simp] theorem slot_points : slot.points = 0 := rfl

@[simp] theorem point_slots : point.slots = 0 := rfl

@[simp] theorem point_points : point.points = 1 := rfl

def text (isText : Bool) : Need := if isText then point else 0

end Need

namespace Node

mutual

/-- What a statement needs: a slot for each variable and each temporary, and a resume point for each op
that can pause. -/
def need (joins : Bool) : Node → Need
  | text s => .text (s != "")
  | print _ => .point
  | branch bs o => branchesNeed joins bs +
      match o with
      | none => 0
      | some b => blockNeed joins false b
  | switch _ cs o => .slot + .point + casesNeed joins cs +
      match o with
      | none => 0
      | some b => blockNeed joins false b
  | each _ index _ b ifEmpty => .slot + .slot + .slot + .point +
      (if index.isSome then .slot else 0) + blockNeed joins false b +
      match ifEmpty with
      | none => 0
      | some b => blockNeed joins false b
  | bind .. => .slot + .point
  | capture _ _ b => .slot + .slot + blockNeed joins false b
  | call _ _ as => .point + argsNeed joins as
  | tag _ children _ => .point + .point + childrenNeed joins children
  | key _ => 0

/-- What a block needs, behind a text that has yet to be written if `isPending`. With `joins`, a run of
texts needs one point. -/
def blockNeed (joins isPending : Bool) : List Node → Need
  | [] => .text isPending
  | n :: ns =>
    match joins, n with
    | true, text s => blockNeed joins (isPending || s != "") ns
    | _, _ => .text isPending + n.need joins + blockNeed joins false ns

def branchesNeed (joins : Bool) : List (Expr × List Node) → Need
  | [] => 0
  | (_, b) :: bs => .point + blockNeed joins false b + branchesNeed joins bs

def casesNeed (joins : Bool) : List (List Expr × List Node) → Need
  | [] => 0
  | (_, b) :: cs => .point + blockNeed joins false b + casesNeed joins cs

def argsNeed (joins : Bool) : List Arg → Need
  | [] => 0
  | .value .. :: as => argsNeed joins as
  | .content _ _ b :: as => .slot + blockNeed joins false b + argsNeed joins as

def childrenNeed (joins : Bool) : List Node → Need
  | [] => 0
  | n :: ns => n.need joins + childrenNeed joins ns

end

end Node

/-- Holds of the expressions that are known before rendering: without a free leaf, and with a value
wherever they are evaluated. -/
def Expr.IsKnown (e : Expr) : Prop :=
  e.IsGround ∧ ∃ v, ∀ s env a site t, (e.direct s env a site t).1 = .ok v

/-! What is known is so in any render. That there are renders takes an example of each part. -/

instance : Inhabited Activation :=
  ⟨⟨0, ⟨"", false, .html, ⟨#[], #[], #[], [], []⟩, []⟩, [], #[], none, fun _ => false⟩⟩

instance : Inhabited Env :=
  ⟨⟨⟨#[], #[], []⟩, .none, 0, [], fun _ _ => true, fun _ => true, fun _ => false⟩⟩

instance : Inhabited RenderState := ⟨⟨.buffer "", none, 0, false, .empty, .empty, #[], []⟩⟩

theorem Expr.isKnown_iff {e : Expr} : e.IsKnown ↔ ∃ v, e.fold? = some v := by
  constructor
  · rintro ⟨hground, v, hv⟩
    exact ⟨v, (fold?_eq_some_iff (.empty "") default default 0 default).2 ⟨hground, hv _ _ _ _ _⟩⟩
  · rintro ⟨v, hv⟩
    have h := fun s env a site t => (fold?_eq_some_iff s env a site t).1 hv
    exact ⟨(h (.empty "") default default 0 default).1, v, fun s env a site t => (h s env a site t).2⟩

namespace Template

def header (t : Template) : List VarRef := t.params.map (·.ref) ++ t.state.map (.state ·.name)

/-- Holds of the templates that keep to the scope rules: what the header needs is known before rendering,
it declares no name twice, and the body goes on in its scope. -/
structure WellScoped (t : Template) : Prop where
  defaults : ∀ p ∈ t.params, ∀ e, p.default = some e → e.IsKnown
  state : ∀ v ∈ t.state, v.initial.IsKnown
  header : (t.header.map (·.name)).Nodup
  body : Node.BlockScoped (OpenScopes.declareAll ⟨[], []⟩ t.header) t.body

def need (joins : Bool) (t : Template) : Need :=
  ⟨t.params.length + t.state.length, 0⟩ + Node.blockNeed joins false t.body

end Template

end ResumableTemplates
