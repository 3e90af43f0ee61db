import ResumableTemplates.Proofs.Compile.Injected
import ResumableTemplates.Proofs.Render.Quiet
import ResumableTemplates.Proofs.Render.Sites

/-! Two renders in accord: they read injected records that may differ where their templates do not look,
and their sites may have found different things before. Nothing of that shows in what ops evaluate and
plan. -/
namespace ResumableTemplates

/-- What two renders read, which comes to the same for all templates that they may reach. -/
structure Accord where
  env : Env
  other : Env
  reach : TemplateRef → Prop
  library : other.library = env.library
  lookup : other.lookup = env.lookup
  maxDepth : other.maxDepth = env.maxDepth
  isReady : other.isReady = env.isReady
  alive : ∀ unit name, reach (.compiled unit name) →
    env.isAlive unit = true ∧ other.isAlive unit = true
  host : ∀ i, reach (.host i) → other.injected = env.injected
  clear : ∀ unit name c, reach (.compiled unit name) → env.library.compiled? unit name = some c →
    ∀ op ∈ c.procedure.ops,
      op.Clear (c.procedure.Hides env.injected other.injected) env.injected other.injected
  live : ∀ unit name c, reach (.compiled unit name) → env.library.compiled? unit name = some c →
    ∀ op ∈ c.procedure.ops, ∀ point e, op.point? = some point →
      c.procedure.points[point]? = some e →
        ∀ n ∈ e.live, ¬ c.procedure.Hides env.injected other.injected n
  callee : ∀ unit name c, reach (.compiled unit name) → env.library.compiled? unit name = some c →
    ∀ op ∈ c.procedure.ops, ∀ site callee t, op.callee? = some (.template site callee) →
      env.found unit callee = some t → reach t
  delegate : ∀ unit name c, reach (.compiled unit name) → env.library.compiled? unit name = some c →
    ∀ op ∈ c.procedure.ops, ∀ d v allowEmpty variant t,
      op.callee? = some (.delegate d v allowEmpty) →
        env.lookup.delegate? d variant = some t → reach t

namespace Accord

variable (A : Accord)

abbrev Hides (t : CompiledTemplate) : Nat → Prop :=
  t.procedure.Hides A.env.injected A.other.injected

abbrev IsClear (t : CompiledTemplate) : Code → Prop :=
  Code.IsClear (A.Hides t) A.env.injected A.other.injected

def Reaches (calls : List PendingCall) : Prop := ∀ c ∈ calls, A.reach c.callee

structure Activations (i : Nat) (t : CompiledTemplate) (a b : Activation) : Prop where
  unit : a.unit = i
  unit' : b.unit = i
  template : a.template = t
  template' : b.template = t
  reached : A.reach (.compiled i t.name)
  here : A.env.library.compiled? i t.name = some t
  params : b.params = a.params
  size : b.locals.size = a.locals.size
  slots : ∀ n, ¬ A.Hides t n → b.locals[n]? = a.locals[n]?
  waiting : b.waiting = a.waiting
  calls : ∀ w, a.waiting = some w → A.Reaches w.2

structure States (s t : RenderState) : Prop where
  sink : t.sink = s.sink
  capture : t.capture = s.capture
  depth : t.depth = s.depth
  holdsSink : t.holdsSink = s.holdsSink
  forces : t.forces = s.forces
  cells : t.cells = s.cells
  events : t.events = s.events
  settles : A.env.library.Settles s.bindings
  settles' : A.env.library.Settles t.bindings
  saved : ∀ f, some f ∈ s.cells → A.Reaches f.calls

theorem States.same {A : Accord} {s t : RenderState} (h : A.States s t) :
    t = { s with bindings := t.bindings } := by
  cases s
  cases t
  cases h.sink; cases h.capture; cases h.depth; cases h.holdsSink; cases h.forces
  cases h.cells; cases h.events
  rfl

theorem States.of_same {A : Accord} {s t : RenderState} (h : t = { s with bindings := t.bindings })
    (hs : A.env.library.Settles s.bindings) (ht : A.env.library.Settles t.bindings)
    (hsaved : ∀ f, some f ∈ s.cells → A.Reaches f.calls) : A.States s t := by
  rw [h]
  exact ⟨rfl, rfl, rfl, rfl, rfl, rfl, rfl, hs, ht, hsaved⟩

def Overruns (r : Except Stop α) : Prop :=
  ∃ template, r = .error (.failure (.internal template .tooManySteps))

def Renders (R : α → α → Prop) (x y : Render α) : Prop :=
  ∀ s t, A.States s t →
    (Paired (fun _ => True) R (x s).1 (y t).1 ∧ A.States (x s).2 (y t).2) ∨
      A.other.injected ≠ A.env.injected ∧ (Overruns (x s).1 ∨ Overruns (y t).1)

variable {A}

namespace Renders

variable {R : α → α → Prop} {S : β → β → Prop} {x y : Render α}

theorem pure {a b : α} (h : R a b) : A.Renders R (pure a) (pure b) :=
  fun _ _ hst => .inl ⟨h, hst⟩

theorem stop (e : Stop) : A.Renders R (throw e) (throw e) :=
  fun _ _ hst => .inl ⟨⟨rfl, trivial⟩, hst⟩

theorem fail (e : RenderError) : A.Renders R (Render.fail e) (Render.fail e) := stop _

theorem lift {p q : Except RenderError α} (h : Paired (fun _ => True) R p q) :
    A.Renders R (liftM p) (liftM q) := by
  cases p <;> cases q
  · obtain ⟨rfl, -⟩ := h
    exact fail _
  · exact h.elim
  · exact h.elim
  · exact pure h

theorem overruns_bind {x : Render α} {f : α → Render β} {s : RenderState} (h : Overruns (x s).1) :
    Overruns ((x >>= f) s).1 := by
  obtain ⟨template, h⟩ := h
  refine ⟨template, ?_⟩
  rw [Render.bind_apply]
  rcases hx : x s with ⟨_ | _, t⟩ <;> rw [hx] at h <;> cases h
  rfl

theorem bind {f g : α → Render β} (h : A.Renders R x y)
    (hf : ∀ a b, R a b → A.Renders S (f a) (g b)) : A.Renders S (x >>= f) (y >>= g) := by
  intro s t hst
  obtain ⟨hr, hst⟩ | ⟨hne, ho⟩ := h s t hst
  · rw [Render.bind_apply, Render.bind_apply]
    rcases hx : x s with ⟨_ | a, u⟩ <;> rcases hy : y t with ⟨_ | b, v⟩ <;> rw [hx, hy] at hr hst
    · exact .inl ⟨hr, hst⟩
    · exact hr.elim
    · exact hr.elim
    · exact hf a b hr u v hst
  · exact .inr ⟨hne, ho.imp overruns_bind overruns_bind⟩

theorem bindEq {f g : α → Render β} (h : A.Renders Eq x y) (hf : ∀ a, A.Renders S (f a) (g a)) :
    A.Renders S (x >>= f) (y >>= g) := by
  refine h.bind fun a b hab => ?_
  subst hab
  exact hf a

theorem mono {R' : α → α → Prop} (h : A.Renders R x y) (hR : ∀ a b, R a b → R' a b) :
    A.Renders R' x y := fun s t hst => (h s t hst).imp (And.imp_left (·.mono hR)) id

theorem map {f g : α → β} (h : A.Renders R x y) (hf : ∀ a b, R a b → S (f a) (g b)) :
    A.Renders S (f <$> x) (g <$> y) := by
  rw [map_eq_pure_bind, map_eq_pure_bind]
  exact h.bind fun a b hab => pure (hf a b hab)

theorem get : A.Renders A.States get get := fun _ _ hst => .inl ⟨hst, hst⟩

theorem modify {f g : RenderState → RenderState} (h : ∀ s t, A.States s t → A.States (f s) (g t)) :
    A.Renders (fun _ _ => True) (modify f) (modify g) :=
  fun s t hst => .inl ⟨trivial, h s t hst⟩

theorem note (e : Event) : A.Renders (fun _ _ => True) (Render.note e) (Render.note e) :=
  modify fun _ _ hst => { hst with events := congrArg (e :: ·) hst.events }

theorem modifyGet {f g : RenderState → α × RenderState}
    (h : ∀ s t, A.States s t → R (f s).1 (g t).1 ∧ A.States (f s).2 (g t).2) :
    A.Renders R (modifyGet f) (modifyGet g) := fun s t hst => .inl (h s t hst)

theorem ask (provider : Nat) :
    A.Renders Eq (Render.ask A.env provider) (Render.ask A.other provider) := by
  refine bindEq (.modifyGet fun s t hst => ?_) fun isReady => (note _).bind fun _ _ _ => pure rfl
  rw [A.isReady, hst.forces]
  exact ⟨rfl, { hst with forces := rfl }⟩

theorem force (v : Value) : A.Renders Eq (Render.force A.env v) (Render.force A.other v) := by
  induction v using Value.forced.induct with
  | case1 provider v ih =>
    rw [Render.force, Render.force]
    refine (ask provider).bindEq fun isReady => ?_
    cases isReady with
    | true => exact ih
    | false => exact stop _
  | case2 v hl =>
    cases v with
    | lazy provider v => exact absurd rfl (hl provider v)
    | _ => exact pure rfl

theorem forced {x y : Render Value} (h : A.Renders Eq x y) :
    A.Renders Eq (Render.forced A.env x) (Render.forced A.other y) := h.bindEq fun v => force v

end Renders

namespace Activations

variable {unit : Nat} {t : CompiledTemplate} {a b : Activation} (h : A.Activations unit t a b)

include h

theorem contradiction {R : α → α → Prop} (i : Inconsistency) :
    Paired (fun _ => True) R (a.contradiction i) (b.contradiction i) := by
  rw [Activation.contradiction, Activation.contradiction, h.template, h.template']
  exact ⟨rfl, trivial⟩

theorem site (i : Nat) (target : SiteTarget) : b.site i target = a.site i target := by
  rw [Activation.site, Activation.site, h.unit, h.unit', h.template, h.template']

theorem reads {n : Nat} (hn : ¬ A.Hides t n) :
    Paired (fun _ => True) Eq (a.variable n) (b.variable n) := by
  unfold Activation.variable
  rw [h.slots n hn]
  split
  · exact rfl
  · exact h.contradiction _

theorem value {n : Nat} (hn : ¬ A.Hides t n) :
    Paired (fun _ => True) Eq (a.value n) (b.value n) := by
  unfold Activation.value
  rw [h.slots n hn]
  split
  · exact rfl
  · exact h.contradiction _

theorem buffer {n : Nat} (hn : ¬ A.Hides t n) :
    Paired (fun _ => True) Eq (a.buffer n) (b.buffer n) := by
  unfold Activation.buffer
  rw [h.slots n hn]
  split
  · exact rfl
  · exact h.contradiction _

theorem cursor {n : Nat} (hn : ¬ A.Hides t n) :
    Paired (fun _ => True) Eq (a.cursor n) (b.cursor n) := by
  unfold Activation.cursor
  rw [h.slots n hn]
  split
  · exact rfl
  · split
    · exact h.contradiction _
    · exact rfl
  · exact h.contradiction _
  · exact h.contradiction _

theorem set {n : Nat} {x y : Local}
    (hxy : ¬ A.Hides t n → y = x) :
    Paired (fun _ => True) (A.Activations unit t) (a.set n x) (b.set n y) := by
  unfold Activation.set
  by_cases hn : n < a.locals.size
  · rw [dif_pos hn, dif_pos (h.size ▸ hn)]
    refine { h with size := ?_, slots := fun m hm => ?_ }
    · simp only [Array.size_set, h.size]
    · rw [Array.getElem?_set, Array.getElem?_set]
      by_cases hmn : n = m
      · subst hmn
        rw [if_pos rfl, if_pos rfl, hxy hm]
      · rw [if_neg hmn, if_neg hmn]
        exact h.slots m hm
  · rw [dif_neg hn, dif_neg (h.size ▸ hn)]
    exact h.contradiction _

end Activations

theorem States.after {s t : RenderState} (h : A.States s t) {bindings bindings' : Table Site Binding}
    (hs : A.env.library.Settles bindings) (ht : A.env.library.Settles bindings')
    (events : List Event) : A.States { s with bindings, events := events ++ s.events }
      { t with bindings := bindings', events := events ++ t.events } :=
  { h with events := congrArg (events ++ ·) h.events, settles := hs, settles' := ht }

theorem found (unit : Nat) (name : String) : A.other.found unit name = A.env.found unit name := by
  rw [Env.found, Env.found, A.library, A.lookup]

section Evaluation

variable {unit : Nat} {t : CompiledTemplate} {a b : Activation} (hab : A.Activations unit t a b)

include hab

theorem Activations.resolve (use : Use) (i : Nat) (name : String) :
    A.Renders (fun r q => r = q ∧ A.env.found unit name = some r)
      (a.resolve A.env use i name) (b.resolve A.other use i name) := by
  intro s s' hst
  obtain ⟨halive, halive'⟩ := A.alive _ _ hab.reached
  have hs := Activation.resolve_settled (a := a) (hab.unit ▸ halive) use i name
    fun b hb => hst.settles _ b hb
  have hs' := Activation.resolve_settled (a := b) (hab.unit' ▸ halive') use i name
    fun b hb => by
      rw [A.library]
      exact hst.settles' _ b hb
  have hevents : b.resolving A.other use i name = a.resolving A.env use i name := by
    simp only [Activation.resolving, A.library, hab.unit, hab.unit', hab.site]
  rw [hs, hs', hevents, A.found, A.library, hab.unit, hab.unit']
  refine .inl ⟨?_, hst.after (hst.settles.settle _) (hst.settles'.settle _) _⟩
  cases A.env.found unit name with
  | none => exact ⟨rfl, trivial⟩
  | some r => exact ⟨rfl, rfl⟩

theorem Activations.describe (i : Nat) (table : String) (id : UInt64) :
    A.Renders Eq (a.describe A.env i table id) (b.describe A.other i table id) := by
  intro s s' hst
  obtain ⟨halive, halive'⟩ := A.alive _ _ hab.reached
  have hs := Activation.describe_settled (a := a) (hab.unit ▸ halive) i table id
    fun b hb => hst.settles _ b hb
  have hs' := Activation.describe_settled (a := b) (hab.unit' ▸ halive') i table id
    fun b hb => by
      rw [A.library]
      exact hst.settles' _ b hb
  have hevents : b.describing A.other table id = a.describing A.env table id := by
    simp only [Activation.describing, A.library, hab.unit, hab.unit']
  have hworld : (A.other.world .empty).element b.unit b.template.name i table id =
      (A.env.world .empty).element a.unit a.template.name i table id := by
    simp only [Env.world, Env.lookUpElement, A.library, A.lookup, hab.unit, hab.unit', hab.template,
      hab.template']
  rw [hs, hs', hevents, hworld, A.library]
  refine .inl ⟨?_, hst.after (hst.settles.settle _) (hst.settles'.settle _) _⟩
  cases (A.env.world .empty).element a.unit a.template.name i table id with
  | error e => exact ⟨rfl, trivial⟩
  | ok m => exact rfl

set_option linter.unusedSectionVars false in
mutual

theorem read : {c : Code} →
    (∀ d ∈ c.parts, A.IsClear t d) → A.Renders Eq (c.read A.env a) (c.read A.other b)
  | .const v, _ => .pure rfl
  | .slot n, hc => .lift (hab.reads (hc _ (Code.mem_parts _)))
  | .injected name, hc => by
    have := hc _ (Code.mem_parts _)
    exact .pure this.symm
  | .binary op x y, hc => by
    simp only [Code.read]
    refine (Renders.forced (read fun d hd => hc d (by simp [Code.parts, hd]))).bindEq fun u => ?_
    cases op.decidedBy? u with
    | some v => exact .pure rfl
    | none =>
      exact (Renders.forced (read fun d hd => hc d (by simp [Code.parts, hd]))).bindEq fun v =>
        .lift (.refl fun _ _ => trivial)
  | .unary op x, hc => by
    simp only [Code.read]
    exact (Renders.forced (read fun d hd => hc d (by simp [Code.parts, hd]))).bindEq fun u =>
      .lift (.refl fun _ _ => trivial)
  | .cond c x y, hc => by
    simp only [Code.read]
    refine (Renders.forced (read fun d hd => hc d (by simp [Code.parts, hd]))).bindEq fun u => ?_
    split
    · exact .forced (read fun d hd => hc d (by simp [Code.parts, hd]))
    · exact .forced (read fun d hd => hc d (by simp [Code.parts, hd]))
  | .list cs, hc => by
    simp only [Code.read]
    exact (readAll fun d hd => hc d (by simp [Code.parts, hd])).bindEq fun us => .pure rfl
  | .record fs, hc => by
    simp only [Code.read]
    exact (readFields fun d hd => hc d (by simp [Code.parts, hd])).bindEq fun us => .pure rfl
  | .field x name nullSafe, hc => by
    simp only [Code.read]
    exact (Renders.forced (read fun d hd => hc d (by simp [Code.parts, hd]))).bindEq fun u =>
      .lift (.refl fun _ _ => trivial)
  | .index x k, hc => by
    simp only [Code.read]
    exact (Renders.forced (read fun d hd => hc d (by simp [Code.parts, hd]))).bindEq fun u =>
      (Renders.forced (read fun d hd => hc d (by simp [Code.parts, hd]))).bindEq fun v =>
        .lift (.refl fun _ _ => trivial)
  | .builtin g cs, hc => by
    simp only [Code.read]
    exact (readAll fun d hd => hc d (by simp [Code.parts, hd])).bindEq fun us =>
      .lift (.refl fun _ _ => trivial)
  | .template i name, _ => by
    simp only [Code.read]
    refine (hab.resolve .literal i name).bind fun t u htu => ?_
    obtain ⟨rfl, -⟩ := htu
    rw [A.library]
    exact .pure rfl
  | .element id name none, _ => by
    simp only [Code.read]
    exact .pure rfl
  | .element id name (some (i, table)), _ => by
    simp only [Code.read]
    exact (hab.describe i table id).bindEq fun m => .pure rfl

theorem readAll : {cs : List Code} →
    (∀ d ∈ Code.partsAll cs, A.IsClear t d) →
      A.Renders Eq (Code.readAll A.env a cs) (Code.readAll A.other b cs)
  | [], _ => .pure rfl
  | c :: cs, hc => by
    simp only [Code.readAll]
    exact (Renders.forced (read fun d hd => hc d (by simp [Code.partsAll, hd]))).bindEq fun u =>
      (readAll fun d hd => hc d (by simp [Code.partsAll, hd])).bindEq fun us => .pure rfl

theorem readFields : {fs : List (String × Code)} →
    (∀ d ∈ Code.partsFields fs, A.IsClear t d) →
      A.Renders Eq (Code.readFields A.env a fs) (Code.readFields A.other b fs)
  | [], _ => .pure rfl
  | (k, c) :: fs, hc => by
    simp only [Code.readFields]
    exact (Renders.forced (read fun d hd => hc d (by simp [Code.partsFields, hd]))).bindEq fun u =>
      (readFields fun d hd => hc d (by simp [Code.partsFields, hd])).bindEq fun us => .pure rfl

end

end Evaluation

end Accord

end ResumableTemplates
