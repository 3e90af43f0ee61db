import ResumableTemplates.Proofs.Fallible
import ResumableTemplates.Proofs.Render.Planning

/-! Manners of computations: properties that pass from parts to wholes. What the basic steps of an
evaluation have in common, every evaluation has, and finding out what an op does is evaluation. -/
namespace ResumableTemplates

inductive RenderError.OfEvaluation : RenderError → Prop
  | data : OfEvaluation (.data e)
  | internal : OfEvaluation (.internal template cause)
  | templateNotFound : OfEvaluation (.templateNotFound name)
  | delegateNotFound : OfEvaluation (.delegateNotFound name variant)
  | metadataNotFound : OfEvaluation (.metadataNotFound table element)

def Evaluated (x : Except RenderError α) : Prop := ∀ e, x = .error e → e.OfEvaluation

namespace Evaluated

theorem ok (a : α) : Evaluated (.ok a) := fun _ h => (by cases h)

theorem bind {x : Except RenderError α} {f : α → Except RenderError β} (h : Evaluated x)
    (hf : ∀ a, Evaluated (f a)) : Evaluated (x >>= f) := by
  cases x with
  | error e => exact fun _ he => by cases he; exact h e rfl
  | ok a => exact hf a

theorem data (e : DataError) : Evaluated (.error (.data e) : Except RenderError α) :=
  fun _ h => by cases h; exact .data

theorem ofData (x : Except DataError α) : Evaluated (Render.ofData x) := by
  cases x with
  | error e => exact data e
  | ok a => exact ok a

variable (a : Activation)

theorem contradiction (i : Inconsistency) :
    Evaluated (a.contradiction i : Except RenderError α) :=
  fun _ h => by cases h; exact .internal

theorem set (slot : Nat) (l : Local) : Evaluated (a.set slot l) := by
  unfold Activation.set
  split
  · exact ok _
  · exact contradiction a _

theorem value (slot : Nat) : Evaluated (a.value slot) := by
  unfold Activation.value
  split
  · exact ok _
  · exact contradiction a _

theorem reads (slot : Nat) : Evaluated (a.variable slot) := by
  unfold Activation.variable
  split
  · exact ok _
  · exact contradiction a _

theorem buffer (slot : Nat) : Evaluated (a.buffer slot) := by
  unfold Activation.buffer
  split
  · exact ok _
  · exact contradiction a _

theorem cursor (slot : Nat) : Evaluated (a.cursor slot) := by
  unfold Activation.cursor
  split
  · exact ok _
  · split
    · exact contradiction a _
    · exact ok _
  · exact contradiction a _
  · exact contradiction a _

theorem recordOf (v : Value) : Evaluated (Activation.recordOf v) := by
  cases v <;> first | exact ok _ | exact data _

theorem emit (out : Output) (text : String) (q : Nat) : Evaluated (a.emit out text q) := by
  cases out with
  | sink => exact ok _
  | buffer slot => exact (buffer a slot).bind fun _ => (set a slot _).bind fun _ => ok _

theorem beginLoop (p list cursor : Nat) (onEmpty : Option Nat) (v : Value) :
    Evaluated (a.beginLoop p list cursor onEmpty v) := by
  cases v with
  | list vs =>
    refine (set a list _).bind fun b => (set b cursor _).bind fun c => ?_
    cases onEmpty <;> cases vs <;> exact ok _
  | _ => exact data _

theorem nextItem (p list cursor item : Nat) (index : Option Nat) (exit : Nat) :
    Evaluated (a.nextItem p list cursor item index exit) := by
  refine (Evaluated.cursor a cursor).bind fun n => (value a list).bind fun v => ?_
  cases v with
  | list vs =>
    dsimp only
    cases vs[n]? with
    | none => exact ok _
    | some x =>
      refine (set a item _).bind fun b => ?_
      cases index with
      | none => exact (set b cursor _).bind fun _ => ok _
      | some slot => exact (set b slot _).bind fun c => (set c cursor _).bind fun _ => ok _
  | _ => exact contradiction a _

theorem endCapture (p buffer dest : Nat) (kind : ContentKind) :
    Evaluated (a.endCapture p buffer dest kind) := by
  unfold Activation.endCapture
  split
  · exact contradiction a _
  · exact (set a buffer _).bind fun b => (set b dest _).bind fun _ => ok _
  · exact contradiction a _

end Evaluated

def Render.asking (env : Env) (provider : Nat) (r : Render α) : Render α := do
  if ← ask env provider then r else throw (.pause .valueNotReady)

def Render.Gives (r : Render α) (a : α) : Prop := ∃ s t, r s = (.ok a, t)

/-- Where an op of a template refers to another template, by a site and a name. -/
inductive Op.Refers (op : Op) (site : Nat) (name : String) : Use → Prop
  | call : op = .call point out (.template site name) base args → Refers op site name .call
  | literal : c ∈ op.codes → .template site name ∈ c.parts → Refers op site name .literal

/-- A property of computations. -/
abbrev Manner := ∀ ⦃α : Type⦄, Render α → Prop

namespace Manner

variable (M : Manner)

/-- Holds of the manners that evaluations are in if their parts are. -/
structure Evaluates (env : Env) : Prop where
  pure : ∀ {α : Type} (a : α), M (pure a : Render α)
  fail : ∀ {α : Type} {e : RenderError}, e.OfEvaluation → M (Render.fail e : Render α)
  bind : ∀ {α β : Type} {r : Render α} {f : α → Render β}, M r →
    (∀ a, r.Gives a → M (f a)) → M (r >>= f)
  asking : ∀ {α : Type} {r : Render α} provider, M r → M (Render.asking env provider r)

structure Finds (env : Env) (a : Activation) (op : Op) : Prop where
  resolve : ∀ use i name, op.Refers i name use → M (a.resolve env use i name)
  describe : ∀ i table id, M (a.describe env i table id)
  select : ∀ point out name variant allowEmpty base args v,
    op = .call point out (.delegate name variant allowEmpty) base args →
      M (Render.note (.select a.unit a.template.name name v))

variable {M} {env : Env} (hM : M.Evaluates env)

include hM

namespace Evaluates

theorem lift {x : Except RenderError α} (h : Evaluated x) : M (liftM x : Render α) := by
  cases x with
  | ok a => exact hM.pure a
  | error e => exact hM.fail (h e rfl)

theorem andThen {r : Render α} {f : α → Render β} (h : M r) (hf : ∀ a, M (f a)) : M (r >>= f) :=
  hM.bind h fun a _ => hf a

theorem map {r : Render α} {f : α → β} (h : M r) : M (f <$> r) := by
  rw [map_eq_pure_bind]
  exact hM.andThen h fun a => hM.pure (f a)

theorem force (v : Value) : M (Render.force env v) := by
  induction v using Value.forced.induct with
  | case1 provider v ih =>
    rw [Render.force]
    exact hM.asking provider ih
  | case2 v h =>
    cases v with
    | lazy provider v => exact absurd rfl (h provider v)
    | _ => exact hM.pure _

theorem forced {r : Render Value} (h : M r) : M (Render.forced env r) :=
  hM.andThen h fun v => hM.force v

end Evaluates

section Codes

variable (a : Activation) (hdescribe : ∀ i table id, M (a.describe env i table id))

include hdescribe

set_option linter.unusedSectionVars false in
mutual

theorem read : (c : Code) →
    (∀ i name, .template i name ∈ c.parts → M (a.resolve env .literal i name)) → M (c.read env a)
  | .const v, _ => hM.pure v
  | .slot n, _ => hM.lift (.reads a n)
  | .injected name, _ => hM.pure _
  | .binary op l r, h => by
    rw [Code.read]
    refine hM.andThen
      (hM.forced (read l fun i name hd => h i name (by simp [Code.parts, hd]))) fun x => ?_
    cases op.decidedBy? x with
    | some v => exact hM.pure v
    | none =>
      exact hM.andThen (hM.forced (read r fun i name hd => h i name (by simp [Code.parts, hd])))
        fun y => hM.lift (.ofData _)
  | .unary op e, h => by
    rw [Code.read]
    exact hM.andThen (hM.forced (read e fun i name hd => h i name (by simp [Code.parts, hd])))
      fun x => hM.lift (.ofData _)
  | .cond c t e, h => by
    rw [Code.read]
    refine hM.andThen
      (hM.forced (read c fun i name hd => h i name (by simp [Code.parts, hd]))) fun x => ?_
    split
    · exact hM.forced (read t fun i name hd => h i name (by simp [Code.parts, hd]))
    · exact hM.forced (read e fun i name hd => h i name (by simp [Code.parts, hd]))
  | .list cs, h => by
    rw [Code.read]
    exact hM.andThen (readAll cs fun i name hd => h i name (by simp [Code.parts, hd])) fun vs =>
      hM.pure _
  | .record fs, h => by
    rw [Code.read]
    exact hM.andThen (readFields fs fun i name hd => h i name (by simp [Code.parts, hd])) fun vs =>
      hM.pure _
  | .field b name nullSafe, h => by
    rw [Code.read]
    exact hM.andThen (hM.forced (read b fun i name hd => h i name (by simp [Code.parts, hd])))
      fun x => hM.lift (.ofData _)
  | .index b k, h => by
    rw [Code.read]
    exact hM.andThen (hM.forced (read b fun i name hd => h i name (by simp [Code.parts, hd])))
      fun x => hM.andThen (hM.forced (read k fun i name hd => h i name (by simp [Code.parts, hd])))
        fun y => hM.lift (.ofData _)
  | .builtin f cs, h => by
    rw [Code.read]
    exact hM.andThen (readAll cs fun i name hd => h i name (by simp [Code.parts, hd])) fun vs =>
      hM.lift (.ofData _)
  | .template i name, h => by
    rw [Code.read]
    exact hM.andThen (h i name (Code.mem_parts _)) fun t => hM.pure _
  | .element id name none, _ => by
    rw [Code.read]
    exact hM.pure _
  | .element id name (some (i, table)), _ => by
    rw [Code.read]
    exact hM.andThen (hdescribe i table id) fun m => hM.pure _

theorem readAll : (cs : List Code) →
    (∀ i name, .template i name ∈ Code.partsAll cs → M (a.resolve env .literal i name)) →
    M (Code.readAll env a cs)
  | [], _ => hM.pure _
  | c :: cs, h => by
    rw [Code.readAll]
    exact hM.andThen (hM.forced (read c fun i name hd => h i name (by simp [Code.partsAll, hd])))
      fun v =>
        hM.andThen (readAll cs fun i name hd => h i name (by simp [Code.partsAll, hd])) fun vs =>
          hM.pure _

theorem readFields : (fs : List (String × Code)) →
    (∀ i name, .template i name ∈ Code.partsFields fs → M (a.resolve env .literal i name)) →
    M (Code.readFields env a fs)
  | [], _ => hM.pure _
  | (k, c) :: fs, h => by
    rw [Code.readFields]
    exact hM.andThen (hM.forced (read c fun i name hd => h i name (by simp [Code.partsFields, hd])))
      fun v =>
        hM.andThen (readFields fs fun i name hd => h i name (by simp [Code.partsFields, hd]))
          fun vs => hM.pure _

end

end Codes

variable {a : Activation} {op : Op} (hf : M.Finds env a op)

include hf

theorem read_of_mem {c : Code} (hc : c ∈ op.codes) : M (c.read env a) :=
  read hM a hf.describe c fun i name hd => hf.resolve .literal i name (.literal hc hd)

theorem eval_of_mem {c : Code} (hc : c ∈ op.codes) : M (c.eval env a) :=
  hM.forced (read_of_mem hM hf hc)

theorem matchesAny (subject : Value) {cs : List Code} (hcs : ∀ c ∈ cs, c ∈ op.codes) :
    M (a.matchesAny env subject cs) := by
  induction cs with
  | nil => exact hM.pure _
  | cons c cs ih =>
    rw [Activation.matchesAny]
    refine hM.andThen (eval_of_mem hM hf (hcs c List.mem_cons_self)) fun v => ?_
    split
    · exact hM.pure _
    · exact ih fun d hd => hcs d (List.mem_cons_of_mem _ hd)

theorem baseRecord {base : ParamsBase} (hcs : ∀ c ∈ base.codes, c ∈ op.codes) :
    M (a.baseRecord env base) := by
  cases base with
  | none => exact hM.pure _
  | all => exact hM.pure _
  | code c =>
    exact hM.andThen (eval_of_mem hM hf (hcs c List.mem_cons_self)) fun v => hM.lift (.recordOf v)

theorem layArgs (r : Record) {args : List (String × ArgSource)}
    (hcs : ∀ c ∈ args.flatMap (·.2.codes), c ∈ op.codes) : M (a.layArgs env r args) := by
  induction args generalizing r with
  | nil => exact hM.pure r
  | cons arg args ih =>
    have ih := fun r => ih r fun c hc => hcs c (List.mem_append_right _ hc)
    obtain ⟨name, c | n⟩ := arg <;> rw [Activation.layArgs]
    · exact hM.andThen (read_of_mem hM hf (hcs c List.mem_cons_self)) fun v => ih _
    · exact hM.andThen (hM.lift (.value a n)) fun v => ih _

theorem findCallee {point : Nat} {out : Output} {callee : Callee} {base : ParamsBase}
    {args : List (String × ArgSource)} (he : op = .call point out callee base args) :
    M (a.findCallee env callee) := by
  cases callee with
  | template i name => exact hM.map (hf.resolve .call i name (.call he))
  | delegate name variant allowEmpty =>
    have hvariant : M (a.variantText env variant) := by
      cases variant with
      | none => exact hM.pure _
      | some c =>
        exact hM.andThen (eval_of_mem hM hf (by simp [he, Op.codes, Callee.codes])) fun v =>
          hM.pure _
    refine hM.andThen hvariant fun v =>
      hM.andThen (hf.select point out name variant allowEmpty base args v he) fun _ => ?_
    cases env.lookup.delegate? name v with
    | some t => exact hM.pure _
    | none => cases allowEmpty <;> first | exact hM.pure _ | exact hM.fail .delegateNotFound

theorem planCall {point : Nat} {out : Output} {callee : Callee} {base : ParamsBase}
    {args : List (String × ArgSource)} (he : op = .call point out callee base args) (p : Nat) :
    M (a.planCall env p point out callee base args) := by
  have hbase : ∀ c ∈ base.codes, c ∈ op.codes := fun c hc => by simp [he, Op.codes, hc]
  have hargs : ∀ c ∈ args.flatMap (·.2.codes), c ∈ op.codes := fun c hc => by
    simp only [he, Op.codes, List.mem_append]
    exact .inl (.inr hc)
  rw [Activation.planCall]
  split
  · exact hM.pure _
  · refine hM.andThen (baseRecord hM hf hbase) fun r => hM.andThen (layArgs hM hf r hargs) fun q =>
      hM.andThen (findCallee hM hf he) fun t => ?_
    cases t <;> exact hM.pure _

theorem plan (p : Nat) : M (a.plan env p op) := by
  cases op with
  | text point out s => exact hM.lift (.emit a out s _)
  | print point out c =>
    exact hM.andThen (eval_of_mem hM hf List.mem_cons_self) fun v => hM.lift (.emit a out _ _)
  | store point slot c forces =>
    rw [Activation.plan]
    have hset : ∀ v, M (do return .goto (p + 1) (← a.set slot (.value v)) : Render Action) :=
      fun v => hM.andThen (hM.lift (.set a slot _)) fun _ => hM.pure _
    cases forces with
    | true => exact hM.andThen (eval_of_mem hM hf List.mem_cons_self) hset
    | false => exact hM.andThen (read_of_mem hM hf List.mem_cons_self) hset
  | branchUnless point c target =>
    exact hM.andThen (eval_of_mem hM hf List.mem_cons_self) fun v => hM.pure _
  | branchUnlessMatch point subject cases target =>
    exact hM.andThen (hM.lift (.value a subject)) fun v =>
      hM.andThen (matchesAny hM hf v fun _ hc => hc) fun _ => hM.pure _
  | jump target => exact hM.pure _
  | forInit point c list cursor onEmpty =>
    exact hM.andThen (eval_of_mem hM hf List.mem_cons_self) fun v =>
      hM.lift (.beginLoop a p list cursor onEmpty v)
  | forNext list cursor item index exit => exact hM.lift (.nextItem a p list cursor item index exit)
  | beginCapture buffer => exact hM.andThen (hM.lift (.set a buffer _)) fun _ => hM.pure _
  | endCapture buffer dest kind => exact hM.lift (.endCapture a p buffer dest kind)
  | call point out callee base args => exact planCall hM hf rfl p

end Manner

end ResumableTemplates
