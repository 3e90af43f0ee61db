import ResumableTemplates.Proofs.Render.OneShot

/-! Causes of pauses. A render is suspended because a provider or the sink was asked and was not ready,
and each such answer suspends it at once. Only a sink that asks for a pause when it is written to can
suspend a render later, so none such is admitted here. -/
namespace ResumableTemplates

def Event.isUnreadyForce : Event → Bool
  | .force _ isReady => !isReady
  | _ => false

def Event.isUnreadyPoll : Event → Bool
  | .poll .notReady => true
  | _ => false

theorem Event.delay?_eq_value (e : Event) : e.delay? = some .valueNotReady ↔ e.isUnreadyForce := by
  rcases e with (_ | _) | _ | ⟨_, _ | _⟩ | _ | _ | _ | _ | _ <;> simp [delay?, isUnreadyForce]

theorem Event.delay?_eq_sink (e : Event) : e.delay? = some .sinkNotReady ↔ e.isUnreadyPoll := by
  rcases e with (_ | _) | _ | ⟨_, _ | _⟩ | _ | _ | _ | _ | _ <;> simp [delay?, isUnreadyPoll]

theorem PauseReason.count_add_count (whys : List PauseReason) :
    whys.count .sinkNotReady + whys.count .valueNotReady = whys.length := by
  induction whys with
  | nil => rfl
  | cons why whys ih => cases why <;> simp <;> omega

def Sink.NeverHolds : Sink → Prop
  | .scripted s => ∀ n, s.holdsAfter n = false
  | _ => True

theorem Sink.NeverHolds.poll {k : Sink} (h : k.NeverHolds) : k.poll.2.NeverHolds := by
  cases k <;> exact h

theorem Sink.NeverHolds.append {k : Sink} (h : k.NeverHolds) (chunk : String) :
    (k.append chunk).2.NeverHolds ∧ (k.append chunk).1 ≠ .ok .notReady := by
  cases k with
  | scripted s =>
    have h : ∀ n, s.holdsAfter n = false := h
    simp only [Sink.append, Script.append]
    split <;> simp [NeverHolds, h]
  | writer w =>
    simp only [Sink.append]
    cases (w.append chunk.toUTF8.data).1 <;> simp [NeverHolds, Except.map]
  | _ => simp [Sink.append, NeverHolds]

theorem Activation.awaitSink_of_hold {s u : RenderState} {r : Except Stop Unit}
    (hs : s.holdsSink = false) (h : awaitSink s = (r, u)) : ∃ x, Render.poll s = (.ok x, u) ∧
      r = match x with
        | .ready => .ok ()
        | .notReady => .error (.pause .sinkNotReady) := by
  have hdropped : { s with holdsSink := false } = s := by rw [← hs]
  simp only [awaitSink, Render.takeHold, Render.bind_apply, Render.modifyGet_apply, hs,
    Bool.false_eq_true, if_false, hdropped] at h
  obtain ⟨x, v, hpoll⟩ := Render.poll_ok s
  rw [hpoll] at h
  cases x <;> cases h <;> exact ⟨_, hpoll, rfl⟩

structure RenderState.Unheld (s : RenderState) : Prop where
  sink : s.sink.NeverHolds
  hold : s.holdsSink = false

def Conduct.prompt : Conduct where
  done s u := s.Unheld → u.Unheld ∧ s.Granted u
  paused _ why s u := s.Unheld → u.Unheld ∧ s.Delayed why u
  failed _ _ := True

namespace RenderState.Unheld

variable {s u v : RenderState} {a : Activation} {out : Output}

theorem quietly (hs : s.Unheld) (h : s.Quietly u) : u.Unheld :=
  ⟨h.sink ▸ hs.sink, h.holdsSink.trans hs.hold⟩

theorem within (hs : s.Unheld) : (s.within a out).Unheld := by
  cases out <;> exact ⟨hs.sink, hs.hold⟩

theorem back (hu : u.Unheld) : (s.back u out).Unheld := by
  cases out <;> exact ⟨hu.sink, hu.hold⟩

theorem poll {r : Readiness} (hs : s.Unheld) (h : Render.poll s = (.ok r, u)) :
    u.Unheld ∧ (r = .ready ∧ s.Granted u ∨ r = .notReady ∧ s.Delayed .sinkNotReady u) := by
  rw [Render.poll_apply] at h
  split at h
  · cases h
    exact ⟨hs, .inl ⟨rfl, .refl⟩⟩
  · cases h
    refine ⟨⟨hs.sink.poll, hs.hold⟩, ?_⟩
    cases hr : s.sink.poll.1 with
    | ready => exact .inl ⟨rfl, .event rfl rfl⟩
    | notReady => exact .inr ⟨rfl, .event rfl rfl⟩

theorem append {r : Except Stop Readiness} {text : String} (hs : s.Unheld)
    (h : Render.append text s = (r, u)) : u.Unheld ∧ r ≠ .ok .notReady ∧ s.Granted u := by
  rw [Render.append_apply] at h
  split at h
  · cases h
    exact ⟨⟨hs.sink, hs.hold⟩, by simp, .of_eq rfl⟩
  · obtain ⟨hsink, hready⟩ := hs.sink.append text
    cases h
    refine ⟨⟨hsink, hs.hold⟩, ?_, .event rfl rfl⟩
    generalize (s.sink.append text).1 = x at hready
    cases x with
    | error e => exact fun h => by cases h
    | ok r => exact fun h => hready (by cases h; rfl)

open Activation in
theorem awaitSink {r : Except Stop Unit} (hs : s.Unheld) (h : awaitSink s = (r, u)) :
    u.Unheld ∧ (r = .ok () ∧ s.Granted u ∨ r = .error (.pause .sinkNotReady) ∧
      s.Delayed .sinkNotReady u) := by
  obtain ⟨x, hpoll, rfl⟩ := awaitSink_of_hold hs.hold h
  obtain ⟨hu, ⟨rfl, hg⟩ | ⟨rfl, hd⟩⟩ := hs.poll hpoll
  · exact ⟨hu, .inl ⟨rfl, hg⟩⟩
  · exact ⟨hu, .inr ⟨rfl, hd⟩⟩

open Activation in
theorem writeSink {r : Except Stop Unit} {text : String} (hs : s.Unheld)
    (h : writeSink text s = (r, u)) : u.Unheld ∧ s.Granted u := by
  rw [Activation.writeSink, Render.bind_apply] at h
  rcases hx : Render.append text s with ⟨_ | x, v⟩ <;> rw [hx] at h <;>
    obtain ⟨hv, hready, hg⟩ := hs.append hx
  · cases h
    exact ⟨hv, hg⟩
  · cases x with
    | notReady => exact absurd rfl hready
    | ready =>
      cases h
      exact ⟨hv, hg⟩

end RenderState.Unheld

open RenderState in
theorem Conduct.prompt_lawful : Conduct.prompt.Lawful where
  quiet h hg hs := ⟨hs.quietly h, hg⟩
  andDone h h' hs := by
    obtain ⟨hu, hg⟩ := h hs
    exact (h' hu).imp_right hg.trans
  andPaused h h' hs := by
    obtain ⟨hu, hg⟩ := h hs
    exact (h' hu).imp_right hg.delayed
  andFailed _ _ := trivial
  fails _ := trivial
  lost _ := trivial
  written h h' hs := by
    obtain ⟨hu, ⟨-, hg⟩ | ⟨he, -⟩⟩ := hs.awaitSink h
    · exact (hu.writeSink h').imp_right hg.trans
    · cases he
  refused _ _ := trivial
  putOff h hd hs := ⟨hs.quietly h, hd⟩
  awaited _ _ h hs := by
    obtain ⟨hu, ⟨he, -⟩ | ⟨-, hd⟩⟩ := hs.awaitSink h
    · cases he
    · exact ⟨hu, hd⟩
  returned h hs := by
    obtain ⟨hu, hg⟩ := h hs.within
    exact ⟨hu.back, hg.congr (within_events ..).symm (back_events ..)⟩
  inside _ _ h hs := by
    obtain ⟨hu, hd⟩ := h hs.within
    exact ⟨hu.back, hd.congr (within_events ..).symm (back_events ..)⟩
  left _ := trivial

theorem Conduct.prompt_hosted : Conduct.prompt.Hosted where
  putOff h hs := by
    obtain ⟨hu, ⟨he, -⟩ | ⟨-, hd⟩⟩ := hs.poll h
    · cases he
    · exact ⟨hu, hd⟩
  written h h' hs := by
    obtain ⟨hu, ⟨-, hg⟩ | ⟨he, -⟩⟩ := hs.poll h
    · obtain ⟨hv, -, hg'⟩ := hu.append h'
      exact ⟨hv, hg.trans hg'⟩
    · cases he
  refused _ _ := trivial

def Outcome.reason? : Outcome → Option PauseReason
  | .done => none
  | .suspended st => some st.reason

namespace Render

/-- A render that is resumed each time it is suspended: why it has been suspended, in order, and what
it has come to. -/
inductive Drives (env : Env) (t : TemplateRef) (params : Record) (s : RenderState) :
    List PauseReason → Outcome → RenderState → Prop
  | start : Render.start env t params s = (.ok o, u) → Drives env t params s o.reason?.toList o u
  | resume : Drives env t params s whys (.suspended st) u →
      Render.resume env t params (.suspended st) u = (.ok o, v) →
      Drives env t params s (whys ++ o.reason?.toList) o v

variable {env : Env} {t : TemplateRef} {params : Record} {s u v : RenderState} {o : Outcome}

/-- Events in which a render is put off for some reasons, in order. It stops at the last of them if it
is suspended. -/
structure Delays (whys : List PauseReason) (o : Outcome) (s u : RenderState) (es : List Event) :
    Prop where
  events : u.events = es ++ s.events
  reasons : es.reverse.filterMap Event.delay? = whys
  last : ∀ why, o.reason? = some why → ∃ e before, es = e :: before ∧ e.delay? = some why

theorem Delays.trans {whys whys' : List PauseReason} {o' : Outcome} {es es' : List Event}
    (h : Delays whys o s u es) (h' : Delays whys' o' u v es') :
    Delays (whys ++ whys') o' s v (es' ++ es) where
  events := by rw [h'.events, h.events, List.append_assoc]
  reasons := by rw [List.reverse_append, List.filterMap_append, h.reasons, h'.reasons]
  last why hwhy := by
    obtain ⟨e, before, rfl, he⟩ := h'.last why hwhy
    exact ⟨e, before ++ es, rfl, he⟩

theorem Delays.count_eq {whys : List PauseReason} {es : List Event} (h : Delays whys o s u es)
    (why : PauseReason) : whys.count why = es.countP fun e => e.delay? = some why := by
  rw [← h.reasons, List.count, List.countP_filterMap, List.countP_reverse]
  refine List.countP_congr fun e _ => ?_
  cases e.delay? <;> simp

theorem outermost_delays {frames : Option Frames}
    (h : outermost env t frames params s = (.ok o, u)) (hs : s.Unheld) :
    u.Unheld ∧ ∃ es, Delays o.reason?.toList o s u es := by
  have hsettled := Conduct.outermost_hosted Conduct.prompt_lawful Conduct.prompt_hosted env t
    frames params s
  rw [h] at hsettled
  have none : ∀ es : List Event, (∀ e ∈ es, e.delay? = none) →
      es.reverse.filterMap Event.delay? = [] := fun es hes =>
    List.filterMap_eq_nil_iff.2 fun e he => hes e (List.mem_reverse.1 he)
  cases hsettled with
  | done hu =>
    obtain ⟨hu, es, he, hes⟩ := hu hs
    exact ⟨hu, es, he, none es hes, fun _ hwhy => by cases hwhy⟩
  | @suspended ops why w f hp =>
    obtain ⟨hu, e, es, he, hwhy, hes⟩ := hp hs
    refine ⟨⟨hu.sink, hu.hold⟩, e :: es, he, ?_, ?_⟩
    · rw [List.reverse_cons, List.filterMap_append, none es hes]
      simp [hwhy, Outcome.reason?]
    · rintro _ ⟨⟩
      exact ⟨e, es, rfl, hwhy⟩

theorem resume_eq_ok {st : ResumeState} (h : resume env t params (.suspended st) s = (.ok o, u)) :
    ∃ f, env.library.nameOf t = st.template ∧ s.cells[st.cell]? = some (some f) ∧
      outermost env t (some f) params { s with cells := s.cells.setIfInBounds st.cell none } =
        (.ok o, u) := by
  by_cases hname : env.library.nameOf t = st.template
  case neg => rw [resume_foreign hname] at h; cases h
  rcases hcell : s.cells[st.cell]? with _ | _ | f
  · rw [resume_taken hname (by rw [hcell]; rfl)] at h
    cases h
  · rw [resume_taken hname (by rw [hcell]; rfl)] at h
    cases h
  · exact ⟨f, hname, rfl, resume_first hname hcell ▸ h⟩

namespace Drives

variable {whys : List PauseReason}

/-- A render has been suspended for what has put it off, each time, and for nothing else. -/
theorem delays (h : Drives env t params s whys o u) (hs : s.sink.NeverHolds) :
    u.Unheld ∧ ∃ es, Delays whys o s u es := by
  induction h with
  | start h =>
    simp only [Render.start, takeHold, bind_apply, modifyGet_apply] at h
    obtain ⟨hu, es, he⟩ := outermost_delays h ⟨hs, rfl⟩
    exact ⟨hu, es, he.events, he.reasons, he.last⟩
  | @resume whys st u v o _ h ih =>
    obtain ⟨hu, es, he⟩ := ih
    obtain ⟨f, -, -, h⟩ := resume_eq_ok h
    obtain ⟨hv, es', he'⟩ := outermost_delays h ⟨hu.sink, hu.hold⟩
    exact ⟨hv, es' ++ es, he.trans ⟨he'.events, he'.reasons, he'.last⟩⟩

/-- A render has been suspended as often as it has been put off, by providers and by its sink. -/
theorem counts (h : Drives env t params s whys o u) (hs : s.sink.NeverHolds) :
    ∃ es, u.events = es ++ s.events ∧
      whys.count .valueNotReady = es.countP Event.isUnreadyForce ∧
      whys.count .sinkNotReady = es.countP Event.isUnreadyPoll ∧
      ∀ st, o = .suspended st → ∃ e before, es = e :: before ∧ e.delay? = some st.reason := by
  obtain ⟨-, es, hes⟩ := h.delays hs
  refine ⟨es, hes.events, ?_, ?_, fun st ho => hes.last _ (ho ▸ rfl)⟩
  · simp only [hes.count_eq, Event.delay?_eq_value, Bool.decide_eq_true]
  · simp only [hes.count_eq, Event.delay?_eq_sink, Bool.decide_eq_true]

theorem finish {fuel n m : Nat} (h : Drives env t params s whys o u)
    (hn : n + o.reason?.toList.length = whys.length)
    (hf : Render.finish env t params fuel n o u = (.ok (some m), v)) :
    ∃ whys', Drives env t params s whys' .done v ∧ whys'.length = m := by
  induction fuel generalizing n whys o u with
  | zero =>
    cases o with
    | done =>
      cases hf
      exact ⟨whys, h, hn.symm⟩
    | suspended st => cases hf
  | succ fuel ih =>
    cases o with
    | done =>
      cases hf
      exact ⟨whys, h, hn.symm⟩
    | suspended st =>
      obtain ⟨o, w, hr, hf⟩ := bind_eq_ok.1 hf
      exact ih (h.resume hr) (by
        rw [List.length_append, ← hn]
        rfl) hf

end Drives

end Render

end ResumableTemplates
