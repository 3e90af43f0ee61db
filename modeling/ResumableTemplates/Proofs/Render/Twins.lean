import Mathlib.Data.List.Forall2
import ResumableTemplates.Proofs.Compile.Portable
import ResumableTemplates.Proofs.Render.Quiet
import ResumableTemplates.Proofs.Render.Sites
import ResumableTemplates.Proofs.Value.Bare

/-! Renders in two libraries that have the same templates in different units. A site that has its target
in its own unit in one may have to look it up in the other; the templates that they find are twins,
and nothing else of a render tells the libraries apart. -/
namespace ResumableTemplates

def Local.bare : Local → Local
  | .value v => .value v.bare
  | l => l

structure SavedActivation.Same (s t : SavedActivation) : Prop where
  template : s.template = t.template
  point : s.point = t.point
  locals : s.locals.map Local.bare = t.locals.map Local.bare

section Twins

variable (l m : Library)

inductive TemplateRef.Twin : TemplateRef → TemplateRef → Prop
  | mk : l.compiled? i name = some c → m.compiled? j name = some c →
      Twin (.compiled i name) (.compiled j name)

structure PendingCall.Twin (c d : PendingCall) : Prop where
  callee : TemplateRef.Twin l m c.callee d.callee
  params : Record.Same c.params d.params
  saved : c.saved.Same d.saved

structure Frames.Twin (f g : Frames) : Prop where
  outer : f.outer.Same g.outer
  calls : List.Forall₂ (PendingCall.Twin l m) f.calls g.calls

structure Activation.Twin (a b : Activation) : Prop where
  template : a.template = b.template
  here : l.compiled? a.unit a.template.name = some a.template
  there : m.compiled? b.unit b.template.name = some b.template
  params : Record.Same a.params b.params
  locals : a.locals.map Local.bare = b.locals.map Local.bare
  waiting : Option.Rel (fun c d => c.1 = d.1 ∧ List.Forall₂ (PendingCall.Twin l m) c.2 d.2)
    a.waiting b.waiting

def Library.Binds (bindings : Table Site Binding) : Prop :=
  ∀ site name b, site.target = .template name → bindings.find? site = some b →
    l.binding? site = some b

structure RenderState.Twin (s t : RenderState) : Prop where
  sink : s.sink = t.sink
  capture : s.capture = t.capture
  depth : s.depth = t.depth
  holdsSink : s.holdsSink = t.holdsSink
  forces : s.forces = t.forces
  sinkCalls : s.sinkCalls = t.sinkCalls
  cells : List.Forall₂ (Option.Rel (Frames.Twin l m)) s.cells.toList t.cells.toList
  binds : l.Binds s.bindings
  binds' : m.Binds t.bindings

/-- Holds of what two renders read in which all units are there and names stand for twins. -/
structure Env.Twin (e f : Env) : Prop where
  library : e.library = l
  library' : f.library = m
  maxDepth : e.maxDepth = f.maxDepth
  injected : Record.Same e.injected f.injected
  isReady : e.isReady = f.isReady
  alive : ∀ unit, e.isAlive unit = true
  alive' : ∀ unit, f.isAlive unit = true
  template : ∀ i j name c other, l.compiled? i name = some c → m.compiled? j name = some c →
    Option.Rel (TemplateRef.Twin l m) (e.found i other) (f.found j other)
  delegate : ∀ name variant, name ≠ "" → Option.Rel (TemplateRef.Twin l m)
    (e.lookup.delegate? name variant) (f.lookup.delegate? name variant)

/-- Holds of computations that come to the same but for their libraries. -/
def Render.Twin (R : α → β → Prop) (x : Render α) (y : Render β) : Prop :=
  ∀ s t, RenderState.Twin l m s t →
    Paired (fun _ => True) R (x s).1 (y t).1 ∧ RenderState.Twin l m (x s).2 (y t).2

end Twins

variable {l m : Library}

namespace Render.Twin

variable {R : α → β → Prop} {S : γ → δ → Prop} {x : Render α} {y : Render β}

theorem pure {a : α} {b : β} (h : R a b) : Render.Twin l m R (pure a) (pure b) :=
  fun _ _ hst => ⟨h, hst⟩

theorem stop (e : Stop) : Render.Twin l m R (throw e) (throw e) := fun _ _ hst => ⟨⟨rfl, trivial⟩, hst⟩

theorem fail (e : RenderError) : Render.Twin l m R (fail e) (fail e) := stop _

theorem lift {p : Except RenderError α} {q : Except RenderError β}
    (h : Paired (fun _ => True) R p q) : Render.Twin l m R (liftM p) (liftM q) := by
  cases p <;> cases q
  · obtain ⟨rfl, -⟩ := h
    exact fail _
  · exact h.elim
  · exact h.elim
  · exact pure h

theorem bind {f : α → Render γ} {g : β → Render δ} (h : Render.Twin l m R x y)
    (hf : ∀ a b, R a b → Render.Twin l m S (f a) (g b)) : Render.Twin l m S (x >>= f) (y >>= g) := by
  intro s t hst
  obtain ⟨hr, hst⟩ := h s t hst
  rw [bind_apply, bind_apply]
  rcases hx : x s with ⟨_ | a, u⟩ <;> rcases hy : y t with ⟨_ | b, v⟩ <;> rw [hx, hy] at hr hst
  · exact ⟨hr, hst⟩
  · exact hr.elim
  · exact hr.elim
  · exact hf a b hr u v hst

theorem mono {R' : α → β → Prop} (h : Render.Twin l m R x y) (hR : ∀ a b, R a b → R' a b) :
    Render.Twin l m R' x y :=
  fun s t hst => ⟨(h s t hst).1.mono hR, (h s t hst).2⟩

theorem map {f : α → γ} {g : β → δ} (h : Render.Twin l m R x y) (hf : ∀ a b, R a b → S (f a) (g b)) :
    Render.Twin l m S (f <$> x) (g <$> y) := by
  rw [map_eq_pure_bind, map_eq_pure_bind]
  exact h.bind fun a b hab => pure (hf a b hab)

theorem get : Render.Twin l m (RenderState.Twin l m) get get := fun _ _ hst => ⟨hst, hst⟩

theorem modify {f g : RenderState → RenderState}
    (h : ∀ s t, RenderState.Twin l m s t → RenderState.Twin l m (f s) (g t)) :
    Render.Twin l m (fun _ _ => True) (modify f) (modify g) :=
  fun s t hst => ⟨trivial, h s t hst⟩

theorem note {e f : Event} (h : e.sinkCall? = f.sinkCall?) :
    Render.Twin l m (fun _ _ => True) (note e) (note f) := by
  refine modify fun s t hst => { hst with sinkCalls := ?_ }
  have := hst.sinkCalls
  simp only [RenderState.sinkCalls, List.reverse_inj] at this
  simp only [RenderState.sinkCalls, List.reverse_inj]
  rw [List.filterMap_cons, List.filterMap_cons, h, this]

theorem modifyGet {f : RenderState → α × RenderState} {g : RenderState → β × RenderState}
    (h : ∀ s t, RenderState.Twin l m s t →
      R (f s).1 (g t).1 ∧ RenderState.Twin l m (f s).2 (g t).2) :
    Render.Twin l m R (modifyGet f) (modifyGet g) := h

theorem ask {e f : Env} (h : e.isReady = f.isReady) (provider : Nat) :
    Render.Twin l m Eq (ask e provider) (ask f provider) := by
  refine .bind (R := Eq) (.modifyGet fun s t hst => ?_) fun a b hab => ?_
  · rw [h, hst.forces]
    exact ⟨rfl, { hst with forces := rfl }⟩
  · subst hab
    exact (note rfl).bind fun _ _ _ => pure rfl

theorem force {e f : Env} (h : e.isReady = f.isReady) {v u : Value} (hv : v.Same u) :
    Render.Twin l m Value.Same (force e v) (force f u) := by
  induction v using Value.forced.induct generalizing u with
  | case1 provider v ih =>
    cases u <;> simp only [Value.Same, Value.bare, reduceCtorEq, Value.lazy.injEq] at hv
    obtain ⟨rfl, hv⟩ := hv
    rw [Render.force, Render.force]
    refine (ask h provider).bind fun a b hab => ?_
    subst hab
    cases a with
    | true => exact ih hv
    | false => exact stop _
  | case2 v hl =>
    cases v with
    | lazy provider v => exact absurd rfl (hl provider v)
    | _ =>
      have hbare := hv
      cases u <;> simp only [Value.Same, Value.bare, reduceCtorEq] at hbare
      all_goals exact pure hv

theorem forced {e f : Env} (h : e.isReady = f.isReady) {x y : Render Value}
    (hxy : Render.Twin l m Value.Same x y) :
    Render.Twin l m Value.Same (Render.forced e x) (Render.forced f y) :=
  hxy.bind fun _ _ hv => force h hv

end Render.Twin

inductive Local.Same : Local → Local → Prop
  | unset : Same .unset .unset
  | value : v.Same u → Same (.value v) (.value u)
  | buffer : Same (.buffer s) (.buffer s)
  | cursor : Same (.cursor n) (.cursor n)

theorem Local.same_iff {x y : Local} : x.Same y ↔ x.bare = y.bare := by
  constructor
  · rintro (_ | hv | _ | _)
    · rfl
    · exact congrArg Local.value hv
    · rfl
    · rfl
  · intro h
    cases x <;> cases y <;> simp only [bare, reduceCtorEq, value.injEq, buffer.injEq, cursor.injEq] at h
    · exact .unset
    · exact .value h
    · exact h ▸ .buffer
    · exact h ▸ .cursor

namespace Activation.Twin

variable {a b : Activation} (h : Activation.Twin l m a b)

include h

theorem contradiction {R : α → β → Prop} (i : Inconsistency) :
    Paired (fun _ => True) R (a.contradiction i) (b.contradiction i) := by
  rw [Activation.contradiction, Activation.contradiction, h.template]
  exact ⟨rfl, trivial⟩

theorem size : a.locals.size = b.locals.size := by
  have := congrArg Array.size h.locals
  rwa [Array.size_map, Array.size_map] at this

theorem slot (n : Nat) : Option.Rel Local.Same a.locals[n]? b.locals[n]? := by
  have hn : (a.locals[n]?).map Local.bare = (b.locals[n]?).map Local.bare := by
    rw [← Array.getElem?_map, ← Array.getElem?_map, h.locals]
  cases hx : a.locals[n]? <;> cases hy : b.locals[n]? <;> rw [hx, hy] at hn
  · exact .none
  · cases hn
  · cases hn
  · exact .some (Local.same_iff.2 (Option.some.inj hn))

theorem value? (n : Nat) : Option.Rel Value.Same ((a.locals[n]?).bind Local.value?)
    ((b.locals[n]?).bind Local.value?) := by
  have hn := h.slot n
  generalize a.locals[n]? = x, b.locals[n]? = y at hn ⊢
  obtain ⟨_ | hv | _ | _⟩ | _ := hn
  case some.value => exact .some hv
  case some.cursor => exact .some rfl
  all_goals exact .none

theorem reads (n : Nat) : Paired (fun _ => True) Value.Same (a.variable n) (b.variable n) := by
  have hn := h.value? n
  unfold Activation.variable
  generalize (a.locals[n]?).bind Local.value? = x, (b.locals[n]?).bind Local.value? = y at hn ⊢
  cases hn with
  | some hv => exact hv
  | none => exact h.contradiction _

theorem value (n : Nat) : Paired (fun _ => True) Value.Same (a.value n) (b.value n) := by
  have hn := h.value? n
  unfold Activation.value
  generalize (a.locals[n]?).bind Local.value? = x, (b.locals[n]?).bind Local.value? = y at hn ⊢
  cases hn with
  | some hv => exact hv
  | none => exact h.contradiction _

theorem buffer (n : Nat) : Paired (fun _ => True) Eq (a.buffer n) (b.buffer n) := by
  have hn := h.slot n
  unfold Activation.buffer
  generalize a.locals[n]? = x, b.locals[n]? = y at hn ⊢
  obtain ⟨_ | _ | _ | _⟩ | _ := hn
  case some.buffer => exact rfl
  all_goals exact h.contradiction _

theorem cursor (n : Nat) : Paired (fun _ => True) Eq (a.cursor n) (b.cursor n) := by
  have hn := h.slot n
  unfold Activation.cursor
  generalize a.locals[n]? = x, b.locals[n]? = y at hn ⊢
  obtain ⟨_ | @⟨v, u, hv⟩ | _ | _⟩ | _ := hn
  case some.cursor => exact rfl
  case some.value =>
    cases v <;> cases u <;> simp only [Value.Same, Value.bare, reduceCtorEq] at hv
    case int =>
      cases hv
      dsimp only
      split
      · exact h.contradiction _
      · exact rfl
    all_goals exact h.contradiction (.cursorType _)
  all_goals exact h.contradiction _

theorem set (n : Nat) {x y : Local} (hxy : x.Same y) :
    Paired (fun _ => True) (Activation.Twin l m) (a.set n x) (b.set n y) := by
  unfold Activation.set
  by_cases hn : n < a.locals.size
  · rw [dif_pos hn, dif_pos (h.size ▸ hn)]
    refine { h with locals := ?_ }
    have := Local.same_iff.1 hxy
    simp only [Array.map_set, this, h.locals]
  · rw [dif_neg hn, dif_neg (h.size ▸ hn)]
    exact h.contradiction _

end Activation.Twin

/-- Holds of states of which the second differs at most in what its sites have found. -/
structure RenderState.Beside (l : Library) (s t : RenderState) : Prop where
  quietly : s.Quietly t
  forces : t.forces = s.forces
  binds : l.Binds s.bindings → l.Binds t.bindings

theorem RenderState.Twin.beside {s t s' t' : RenderState} (h : RenderState.Twin l m s t)
    (hs : s.Beside l s') (ht : t.Beside m t') : RenderState.Twin l m s' t' where
  sink := hs.quietly.sink.trans (h.sink.trans ht.quietly.sink.symm)
  capture := hs.quietly.capture.trans (h.capture.trans ht.quietly.capture.symm)
  depth := hs.quietly.depth.trans (h.depth.trans ht.quietly.depth.symm)
  holdsSink := hs.quietly.holdsSink.trans (h.holdsSink.trans ht.quietly.holdsSink.symm)
  forces := hs.forces.trans (h.forces.trans ht.forces.symm)
  sinkCalls := hs.quietly.sinkCalls.trans (h.sinkCalls.trans ht.quietly.sinkCalls.symm)
  cells := by
    rw [hs.quietly.cells, ht.quietly.cells]
    exact h.cells
  binds := hs.binds h.binds
  binds' := ht.binds h.binds'

namespace RenderState.Beside

variable {s t u : RenderState}

theorem refl : s.Beside l s := ⟨.refl, rfl, id⟩

theorem trans (h : s.Beside l t) (h' : t.Beside l u) : s.Beside l u :=
  ⟨h.quietly.trans h'.quietly, h'.forces.trans h.forces, h'.binds ∘ h.binds⟩

theorem note {e : Event} (h : e.sinkCall? = none) :
    s.Beside l { s with events := e :: s.events } :=
  ⟨⟨rfl, rfl, rfl, rfl, rfl, by simp [RenderState.sinkCalls, h]⟩, rfl, id⟩

theorem insert {site : Site} {b : Binding}
    (h : ∀ name, site.target = .template name → l.binding? site = some b) :
    s.Beside l { s with bindings := s.bindings.insert site b } where
  quietly := ⟨rfl, rfl, rfl, rfl, rfl, rfl⟩
  forces := rfl
  binds hs site' name c ht hc := by
    rw [Table.find?_insert] at hc
    split at hc
    · rename_i he
      cases hc
      subst he
      exact h name ht
    · exact hs site' name c ht hc

end RenderState.Beside

theorem Activation.resolve_found {env : Env} {a : Activation} (halive : env.isAlive a.unit = true)
    (use : Use) (i : Nat) (name : String) {s : RenderState} (hs : env.library.Binds s.bindings) :
    ∃ t, a.resolve env use i name s = (Env.answer name (env.found a.unit name), t) ∧
      s.Beside env.library t := by
  have hr := resolve_settled halive use i name fun b hb => hs _ name b rfl hb
  have hnote : s.Beside env.library { s with events := a.resolving env use i name ++ s.events } := by
    rw [resolving]
    split
    · exact .note rfl
    · exact (RenderState.Beside.note rfl).trans (.note (e := .lookup use name) rfl)
  refine ⟨_, hr, hnote.trans ?_⟩
  obtain hsame | ⟨b, hb, hbound⟩ :=
    env.library.settle_eq s.bindings (a.site i (.template name))
  · rw [hsame]
    exact .refl
  · rw [hbound]
    exact .insert fun _ _ => hb

theorem decidedBy?_same {v u : Value} (h : v.Same u) (op : BinaryOp) :
    Option.Rel Value.Same (op.decidedBy? v) (op.decidedBy? u) := by
  have hbare : (op.decidedBy? v).map Value.bare = (op.decidedBy? u).map Value.bare := by
    rw [← Value.decidedBy?_bare, h, Value.decidedBy?_bare]
  cases hv : op.decidedBy? v <;> cases hu : op.decidedBy? u <;> rw [hv, hu] at hbare
  · exact .none
  · cases hbare
  · cases hbare
  · exact .some (Option.some.inj hbare)

theorem Paired.ofData {p q : Except DataError Value} (h : Paired (fun _ => True) Value.Same p q) :
    Paired (fun _ => True) Value.Same (Render.ofData p) (Render.ofData q) := by
  cases p <;> cases q
  · exact ⟨congrArg RenderError.data h.1, trivial⟩
  · exact h
  · exact h
  · exact h

section Evaluation

variable {e f : Env} {a b : Activation} (hef : Env.Twin l m e f) (hab : Activation.Twin l m a b)

include hef hab

/-- Twins find twins at a site. -/
theorem Activation.Twin.resolve (use : Use) (i : Nat) (name : String) :
    Render.Twin l m (TemplateRef.Twin l m) (a.resolve e use i name) (b.resolve f use i name) := by
  intro s t hst
  obtain ⟨s', hs, hs'⟩ := Activation.resolve_found (a := a) (hef.alive _) use i name
    (hef.library.symm ▸ hst.binds)
  obtain ⟨t', ht, ht'⟩ := Activation.resolve_found (a := b) (hef.alive' _) use i name
    (hef.library'.symm ▸ hst.binds')
  rw [hs, ht]
  refine ⟨?_, hst.beside (hef.library ▸ hs') (hef.library' ▸ ht')⟩
  have hfound := hef.template a.unit b.unit a.template.name a.template name hab.here
    (hab.template ▸ hab.there)
  generalize e.found a.unit name = x, f.found b.unit name = y at hfound
  cases hfound with
  | none => exact ⟨rfl, trivial⟩
  | some h => exact h

set_option linter.unusedSectionVars false in
mutual

theorem Code.read_twin : {c : Code} → c.Portable →
    Render.Twin l m Value.Same (c.read e a) (c.read f b)
  | .const v, _ => .pure (.refl v)
  | .slot n, _ => .lift (hab.reads n)
  | .injected name, _ => .pure (hef.injected.read name)
  | .binary op x y, hc => by
    simp only [Code.read]
    refine (Render.Twin.forced hef.isReady (Code.read_twin fun d hd => hc d (by simp [parts, hd]))).bind
      fun u v huv => ?_
    have hdecided := decidedBy?_same huv op
    generalize op.decidedBy? u = p, op.decidedBy? v = q at hdecided
    cases hdecided with
    | some hpq => exact .pure hpq
    | none =>
      exact (Render.Twin.forced hef.isReady (Code.read_twin fun d hd => hc d (by simp [parts, hd]))).bind
        fun u' v' huv' => .lift (huv.binary huv' op).ofData
  | .unary op x, hc => by
    simp only [Code.read]
    exact (Render.Twin.forced hef.isReady (Code.read_twin fun d hd => hc d (by simp [parts, hd]))).bind
      fun u v huv => .lift (huv.unary op).ofData
  | .cond c x y, hc => by
    simp only [Code.read]
    refine (Render.Twin.forced hef.isReady (Code.read_twin fun d hd => hc d (by simp [parts, hd]))).bind
      fun u v huv => ?_
    rw [huv.isTruthy]
    split
    · exact .forced hef.isReady (Code.read_twin fun d hd => hc d (by simp [parts, hd]))
    · exact .forced hef.isReady (Code.read_twin fun d hd => hc d (by simp [parts, hd]))
  | .list cs, hc => by
    simp only [Code.read]
    exact (Code.readAll_twin fun d hd => hc d (by simp [parts, hd])).bind fun us vs huvs =>
      .pure (congrArg Value.list huvs)
  | .record fs, hc => by
    simp only [Code.read]
    exact (Code.readFields_twin fun d hd => hc d (by simp [parts, hd])).bind fun us vs huvs =>
      .pure (congrArg Value.record huvs.ofList)
  | .field x name nullSafe, hc => by
    simp only [Code.read]
    exact (Render.Twin.forced hef.isReady (Code.read_twin fun d hd => hc d (by simp [parts, hd]))).bind
      fun u v huv => .lift (huv.fieldOf name nullSafe).ofData
  | .index x k, hc => by
    simp only [Code.read]
    exact (Render.Twin.forced hef.isReady (Code.read_twin fun d hd => hc d (by simp [parts, hd]))).bind
      fun u v huv =>
        (Render.Twin.forced hef.isReady (Code.read_twin fun d hd => hc d (by simp [parts, hd]))).bind
        fun u' v' huv' => .lift (huv.item huv').ofData
  | .builtin g cs, hc => by
    simp only [Code.read]
    exact (Code.readAll_twin fun d hd => hc d (by simp [parts, hd])).bind fun us vs huvs =>
      .lift (Value.apply_same huvs g).ofData
  | .template i name, _ => by
    simp only [Code.read]
    refine (hab.resolve hef .literal i name).bind fun t u htu => ?_
    cases htu
    exact .pure rfl
  | .element id name none, _ => by
    simp only [Code.read]
    exact .pure (.refl _)
  | .element id name (some site), hc => by cases hc _ (mem_parts _)

theorem Code.readAll_twin : {cs : List Code} →
    (∀ d ∈ partsAll cs, d.describes = false) →
    Render.Twin l m (fun us vs => Value.bareAll us = Value.bareAll vs) (Code.readAll e a cs)
      (Code.readAll f b cs)
  | [], _ => .pure rfl
  | c :: cs, hc => by
    simp only [Code.readAll]
    refine (Render.Twin.forced hef.isReady (Code.read_twin fun d hd => hc d (by simp [partsAll, hd]))).bind
      fun u v huv => ?_
    refine (Code.readAll_twin fun d hd => hc d (by simp [partsAll, hd])).bind
      fun us vs huvs => .pure ?_
    rw [Value.bareAll, Value.bareAll, show u.bare = v.bare from huv, huvs]

theorem Code.readFields_twin : {fs : List (String × Code)} →
    (∀ d ∈ partsFields fs, d.describes = false) →
    Render.Twin l m Record.Same (Code.readFields e a fs) (Code.readFields f b fs)
  | [], _ => .pure rfl
  | (k, c) :: fs, hc => by
    simp only [Code.readFields]
    refine (Render.Twin.forced hef.isReady (Code.read_twin fun d hd => hc d (by simp [partsFields, hd]))).bind
      fun u v huv => ?_
    refine (Code.readFields_twin fun d hd => hc d (by simp [partsFields, hd])).bind
      fun us vs huvs => .pure ?_
    rw [Record.Same, Value.bareFields, Value.bareFields, show u.bare = v.bare from huv,
      show Value.bareFields us = _ from huvs]

end

end Evaluation

end ResumableTemplates
