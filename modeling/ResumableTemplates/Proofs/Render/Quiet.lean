import ResumableTemplates.Proofs.Procedure.Effect
import ResumableTemplates.Proofs.Render.Manner

/-! Evaluation never gets in touch with the sink. Until an op is known, all that changes is what
sites have found and how often providers have been asked. Only a provider that is not ready puts an
evaluation off, and nothing happens after that. -/
namespace ResumableTemplates

inductive SinkCall
  | poll (answer : Readiness)
  | append (chunk : String) (answer : Except SinkError Readiness)

def Event.sinkCall? : Event → Option SinkCall
  | .poll answer => some (.poll answer)
  | .append chunk answer => some (.append chunk answer)
  | _ => none

def RenderState.sinkCalls (s : RenderState) : List SinkCall :=
  (s.events.filterMap Event.sinkCall?).reverse

def SinkCall.chunk? : SinkCall → Option String
  | .append chunk (.ok _) => some chunk
  | _ => none

theorem RenderState.chunks_eq (s : RenderState) :
    s.chunks = s.sinkCalls.filterMap SinkCall.chunk? := by
  rw [chunks, sinkCalls, List.filterMap_reverse, List.filterMap_filterMap]
  congr 2
  funext e
  cases e with
  | append chunk answer => cases answer <;> rfl
  | _ => rfl

/-- Holds of states between which nothing is done but evaluation. -/
structure RenderState.Quietly (s t : RenderState) : Prop where
  sink : t.sink = s.sink
  capture : t.capture = s.capture
  depth : t.depth = s.depth
  holdsSink : t.holdsSink = s.holdsSink
  cells : t.cells = s.cells
  sinkCalls : t.sinkCalls = s.sinkCalls

namespace RenderState.Quietly

variable {s t u : RenderState}

theorem refl : s.Quietly s := ⟨rfl, rfl, rfl, rfl, rfl, rfl⟩

theorem trans (h : s.Quietly t) (h' : t.Quietly u) : s.Quietly u where
  sink := h'.sink.trans h.sink
  capture := h'.capture.trans h.capture
  depth := h'.depth.trans h.depth
  holdsSink := h'.holdsSink.trans h.holdsSink
  cells := h'.cells.trans h.cells
  sinkCalls := h'.sinkCalls.trans h.sinkCalls

end RenderState.Quietly

/-- Why an event puts a render off, if it does: a provider or the sink is asked and is not ready. -/
def Event.delay? : Event → Option PauseReason
  | .force _ false => some .valueNotReady
  | .poll .notReady => some .sinkNotReady
  | _ => none

namespace RenderState

def Granted (s u : RenderState) : Prop :=
  ∃ es, u.events = es ++ s.events ∧ ∀ e ∈ es, e.delay? = none

def Delayed (why : PauseReason) (s u : RenderState) : Prop :=
  ∃ e es, u.events = e :: (es ++ s.events) ∧ e.delay? = some why ∧ ∀ d ∈ es, d.delay? = none

variable {s t u : RenderState} {why : PauseReason}

theorem Granted.of_eq (h : u.events = s.events) : s.Granted u := ⟨[], h, fun _ h => (by cases h)⟩

theorem Granted.refl : s.Granted s := .of_eq rfl

theorem Granted.event {e : Event} (h : u.events = e :: s.events) (he : e.delay? = none) :
    s.Granted u := ⟨[e], h, fun _ hd => List.mem_singleton.1 hd ▸ he⟩

theorem Delayed.event {e : Event} (h : u.events = e :: s.events) (he : e.delay? = some why) :
    s.Delayed why u := ⟨e, [], h, he, fun _ h => (by cases h)⟩

theorem Granted.trans (h : s.Granted t) (h' : t.Granted u) : s.Granted u := by
  obtain ⟨es, ht, hes⟩ := h
  obtain ⟨ds, hu, hds⟩ := h'
  refine ⟨ds ++ es, by rw [hu, ht, List.append_assoc], fun e he => ?_⟩
  exact (List.mem_append.1 he).elim (hds e) (hes e)

theorem Granted.delayed (h : s.Granted t) (h' : t.Delayed why u) : s.Delayed why u := by
  obtain ⟨es, ht, hes⟩ := h
  obtain ⟨e, ds, hu, he, hds⟩ := h'
  refine ⟨e, ds ++ es, by rw [hu, ht, List.append_assoc], he, fun d hd => ?_⟩
  exact (List.mem_append.1 hd).elim (hds d) (hes d)

theorem Granted.congr {s' u' : RenderState} (h : s.Granted u) (hs : s'.events = s.events)
    (hu : u'.events = u.events) : s'.Granted u' := by
  rw [Granted, hs, hu]
  exact h

theorem Delayed.congr {s' u' : RenderState} (h : s.Delayed why u) (hs : s'.events = s.events)
    (hu : u'.events = u.events) : s'.Delayed why u' := by
  rw [Delayed, hs, hu]
  exact h

end RenderState

namespace Render

variable {r : Render α} {f : α → Render β}

theorem bind_eq_ok {s u : RenderState} {b : β} :
    (r >>= f) s = (.ok b, u) ↔ ∃ a t, r s = (.ok a, t) ∧ f a t = (.ok b, u) := by
  rw [bind_apply]
  rcases r s with ⟨_ | a, t⟩
  · exact ⟨fun h => (by cases h), fun ⟨_, _, h, _⟩ => (by cases h)⟩
  · exact ⟨fun h => ⟨a, t, rfl, h⟩, fun ⟨_, _, h, h'⟩ => by cases h; exact h'⟩

/-- Holds of the computations that do nothing but evaluate: only a provider can put them off, and they
fail as evaluations do. -/
structure Quiet (r : Render α) : Prop where
  quietly : ∀ s : RenderState, s.Quietly (r s).2
  reason : ∀ (s : RenderState) why, (r s).1 = .error (.pause why) → why = .valueNotReady
  failure : ∀ (s : RenderState) e, (r s).1 = .error (.failure e) → e.OfEvaluation
  granted : ∀ s : RenderState, (∀ why, (r s).1 ≠ .error (.pause why)) → s.Granted (r s).2
  delayed : ∀ (s : RenderState) why, (r s).1 = .error (.pause why) → s.Delayed why (r s).2

namespace Quiet

theorem settled {x : RenderState → α} (h : ∀ s : RenderState, (r s).1 = .ok (x s))
    (hq : ∀ s : RenderState, s.Quietly (r s).2) (hg : ∀ s : RenderState, s.Granted (r s).2) :
    r.Quiet where
  quietly := hq
  reason s why hw := by rw [h s] at hw; cases hw
  failure s e he := by rw [h s] at he; cases he
  granted s _ := hg s
  delayed s why hw := by rw [h s] at hw; cases hw

theorem pure (a : α) : (pure a : Render α).Quiet :=
  settled (fun _ => rfl) (fun _ => .refl) fun _ => .refl

theorem fail {e : RenderError} (h : e.OfEvaluation) : (Render.fail e : Render α).Quiet where
  quietly _ := .refl
  reason _ _ hw := by cases hw
  failure _ _ he := by cases he; exact h
  granted _ _ := .refl
  delayed _ _ hw := by cases hw

theorem lift {x : Except RenderError α} (h : Evaluated x) : (liftM x : Render α).Quiet := by
  cases x with
  | ok a => exact .pure a
  | error e => exact .fail (h e rfl)

theorem get : (MonadState.get : Render RenderState).Quiet :=
  settled (fun _ => rfl) (fun _ => .refl) fun _ => .refl

theorem bindGives (h : r.Quiet) (hf : ∀ a, r.Gives a → (f a).Quiet) : (r >>= f).Quiet where
  quietly s := by
    have hs := h.quietly s
    rw [bind_apply]
    rcases hr : r s with ⟨_ | a, t⟩ <;> rw [hr] at hs
    · exact hs
    · exact hs.trans ((hf a ⟨s, t, hr⟩).quietly t)
  reason s why hw := by
    rw [bind_apply] at hw
    rcases hr : r s with ⟨_ | a, t⟩ <;> rw [hr] at hw
    · exact h.reason s why (by rw [hr]; exact congrArg _ (Except.error.inj hw))
    · exact (hf a ⟨s, t, hr⟩).reason t why hw
  failure s e he := by
    rw [bind_apply] at he
    rcases hr : r s with ⟨_ | a, t⟩ <;> rw [hr] at he
    · exact h.failure s e (by rw [hr]; exact congrArg _ (Except.error.inj he))
    · exact (hf a ⟨s, t, hr⟩).failure t e he
  granted s hn := by
    rw [bind_apply] at hn ⊢
    rcases hr : r s with ⟨_ | a, t⟩ <;> rw [hr] at hn
    · have := h.granted s fun why hw => hn why (by rw [hr] at hw; exact congrArg _ (Except.error.inj hw))
      rwa [hr] at this
    · have := h.granted s fun why hw => by rw [hr] at hw; cases hw
      rw [hr] at this
      exact this.trans ((hf a ⟨s, t, hr⟩).granted t hn)
  delayed s why hw := by
    rw [bind_apply] at hw ⊢
    rcases hr : r s with ⟨_ | a, t⟩ <;> rw [hr] at hw
    · have := h.delayed s why (by rw [hr]; exact congrArg _ (Except.error.inj hw))
      rwa [hr] at this
    · have := h.granted s fun why hw => by rw [hr] at hw; cases hw
      rw [hr] at this
      exact this.delayed ((hf a ⟨s, t, hr⟩).delayed t why hw)

theorem bind (h : r.Quiet) (hf : ∀ a, (f a).Quiet) : (r >>= f).Quiet :=
  h.bindGives fun a _ => hf a

theorem note {e : Event} (h : e.sinkCall? = none) (hd : e.delay? = none) : (Render.note e).Quiet :=
  settled (fun _ => rfl) (fun _ => ⟨rfl, rfl, rfl, rfl, rfl, by simp [RenderState.sinkCalls, h]⟩)
    fun _ => .event rfl hd

theorem asking (env : Env) (provider : Nat) (h : r.Quiet) : (Render.asking env provider r).Quiet := by
  have hstep : ∀ s : RenderState, ∃ (isReady : Bool) (forces : Table Nat Nat),
      Render.asking env provider r s = (if isReady then r else throw (Stop.pause .valueNotReady))
        { s with forces, events := .force provider isReady :: s.events } := fun s => ⟨_, _, rfl⟩
  have hquiet : ∀ (s : RenderState) forces isReady,
      s.Quietly { s with forces, events := .force provider isReady :: s.events } :=
    fun _ _ _ => ⟨rfl, rfl, rfl, rfl, rfl, rfl⟩
  have hgranted : ∀ (s : RenderState) forces,
      s.Granted { s with forces, events := .force provider true :: s.events } :=
    fun _ _ => .event rfl rfl
  constructor <;> intro s <;> obtain ⟨_ | _, forces, hs⟩ := hstep s <;> rw [hs]
  · exact hquiet s forces false
  · exact (hquiet s forces true).trans (h.quietly _)
  · rintro why ⟨⟩
    rfl
  · exact h.reason _
  · rintro e ⟨⟩
  · exact h.failure _
  · exact fun hn => absurd rfl (hn _)
  · exact fun hn => (hgranted s forces).trans (h.granted _ hn)
  · rintro why ⟨⟩
    exact .event rfl rfl
  · exact fun why hw => (hgranted s forces).delayed (h.delayed _ why hw)

theorem manner (env : Env) : Manner.Evaluates (fun _ r => r.Quiet) env where
  pure := .pure
  fail := .fail
  bind := .bindGives
  asking := .asking env

end Quiet

end Render

open Render (Quiet)

namespace Activation

variable (env : Env) (a : Activation)

theorem bind_quiet (site : Site) (b : Binding) : (bind site b).Quiet :=
  .settled (fun _ => rfl) (fun _ => ⟨rfl, rfl, rfl, rfl, rfl, rfl⟩) fun _ => .of_eq rfl

theorem lookUp_quiet (use : Use) (name : String) : (lookUp env use name).Quiet := by
  refine .bind (.note rfl rfl) fun _ => ?_
  cases env.lookup.template? name with
  | none => exact .fail .templateNotFound
  | some t => exact .pure t

theorem resolve_quiet (use : Use) (i : Nat) (name : String) :
    (a.resolve env use i name).Quiet := by
  refine .bind (.note rfl rfl) fun _ => .bind .get fun s => ?_
  split
  · split
    · exact .pure _
    · exact .lift (.contradiction a _)
  · exact lookUp_quiet env use name
  · split
    · exact .lift (.contradiction a _)
    · split
      · exact .bind (bind_quiet _ _) fun _ => .pure _
      · exact .bind (bind_quiet _ _) fun _ => lookUp_quiet env use name

theorem lookUpElement_quiet (table : String) (id : UInt64) :
    (lookUpElement env table id).Quiet := by
  refine .bind (.note rfl rfl) fun _ => ?_
  cases env.lookup.element? table id with
  | none => exact .fail .metadataNotFound
  | some m => exact .pure m

theorem describe_quiet (i : Nat) (table : String) (id : UInt64) :
    (a.describe env i table id).Quiet := by
  refine .bind .get fun s => ?_
  split
  · exact .pure _
  · exact lookUpElement_quiet env table id
  · split
    · exact .lift (.contradiction a _)
    · split
      · exact .bind (bind_quiet _ _) fun _ => .pure _
      · exact .lift (.contradiction a _)
      · exact .bind (bind_quiet _ _) fun _ => lookUpElement_quiet env table id

end Activation

theorem Activation.plan_quiet (env : Env) (a : Activation) (p : Nat) (op : Op) :
    (a.plan env p op).Quiet :=
  Manner.plan (Quiet.manner env)
    { resolve := fun use i name _ => a.resolve_quiet env use i name
      describe := a.describe_quiet env
      select := fun _ _ _ _ _ _ _ _ _ => .note rfl rfl } p

end ResumableTemplates
