import ResumableTemplates.Proofs.Render.OneShot

/-! The protocol of sinks. A sink is written to only right after it has said that it is ready, and
once it has asked for a pause it is left alone until the driver has received a suspended render and
resumed it. A sink that asks for a pause when it is written to is remembered in the hold, which the
next write finds, wherever in the tree of calls that is. -/
namespace ResumableTemplates

def SinkCall.asksPause : SinkCall → Bool
  | .poll .notReady | .append _ (.ok .notReady) => true
  | _ => false

/-- Holds of calls of a sink in which each write comes right after a poll that was answered with
ready, and nothing comes after a call that asked for a pause. -/
def Orderly (calls : List SinkCall) : Prop :=
  ∀ before c after, calls = before ++ c :: after →
    (∀ d ∈ before, d.asksPause = false) ∧
      ∀ chunk answer, c = .append chunk answer → ∃ b, before = b ++ [.poll .ready]

theorem Orderly.nil : Orderly [] := fun before c after h => by cases before <;> cases h

theorem Orderly.concat {calls : List SinkCall} {c : SinkCall} (h : Orderly calls)
    (hpause : ∀ d ∈ calls, d.asksPause = false)
    (hready : ∀ chunk answer, c = .append chunk answer → ∃ b, calls = b ++ [.poll .ready]) :
    Orderly (calls ++ [c]) := by
  intro before d after he
  obtain rfl | ⟨after, z, rfl⟩ := List.eq_nil_or_concat after
  · obtain ⟨rfl, hc⟩ := List.append_inj' he rfl
    cases hc
    exact ⟨hpause, hready⟩
  · rw [List.concat_eq_append, ← List.cons_append, ← List.append_assoc] at he
    exact h before d after (List.append_inj' he rfl).1

theorem RenderState.sinkCalls_congr {s t : RenderState} (h : t.events = s.events) :
    t.sinkCalls = s.sinkCalls := by
  rw [sinkCalls, h, sinkCalls]

theorem RenderState.sinkCalls_cons {s t : RenderState} {e : Event} {c : SinkCall}
    (h : t.events = e :: s.events) (hc : e.sinkCall? = some c) :
    t.sinkCalls = s.sinkCalls ++ [c] := by
  simp [sinkCalls, h, hc]

structure RenderState.Calm (s : RenderState) : Prop where
  orderly : Orderly s.sinkCalls
  holds : s.holdsSink = false → ∀ d ∈ s.sinkCalls, d.asksPause = false

def Conduct.polite : Conduct where
  done s u := s.Calm → u.Calm
  paused _ _ s u := s.Calm → Orderly u.sinkCalls
  failed s u := s.Calm → Orderly u.sinkCalls

namespace Activation

variable {s u v : RenderState}

theorem awaitSink_calm (h : awaitSink s = (.ok (), u)) (hs : s.Calm) :
    Orderly u.sinkCalls ∧ (∀ d ∈ u.sinkCalls, d.asksPause = false) ∧
      (u.capture = none → ∃ b, u.sinkCalls = b ++ [.poll .ready]) := by
  rw [awaitSink_apply] at h
  split at h
  · cases h
  · rename_i hh
    have hpause := hs.holds (Bool.eq_false_iff.2 hh)
    split at h
    · rename_i hc
      cases h
      exact ⟨hs.orderly, hpause, fun hn => by rw [show s.capture = none from hn] at hc; cases hc⟩
    · cases hr : s.sink.poll.1 <;> rw [hr] at h <;> cases h
      have hcalls := RenderState.sinkCalls_cons (s := s) (t := { s with
        sink := s.sink.poll.2, holdsSink := false, events := .poll .ready :: s.events }) rfl rfl
      rw [hcalls]
      refine ⟨hs.orderly.concat hpause fun _ _ h => (by cases h), fun d hd => ?_, fun _ => ⟨_, rfl⟩⟩
      obtain hd | hd := List.mem_append.1 hd
      · exact hpause d hd
      · cases List.mem_singleton.1 hd
        rfl

theorem awaitSink_orderly {e : Stop} (h : awaitSink s = (.error e, u)) (hs : s.Calm) :
    Orderly u.sinkCalls := by
  rw [awaitSink_apply] at h
  split at h
  · cases h
    exact hs.orderly
  · rename_i hh
    split at h
    · cases h
    · cases hr : s.sink.poll.1 <;> rw [hr] at h <;> cases h
      rw [RenderState.sinkCalls_cons (s := s) rfl rfl]
      exact hs.orderly.concat (hs.holds (Bool.eq_false_iff.2 hh)) fun _ _ h => by cases h

theorem writeSink_calm {text : String} {r : Except Stop Unit} (h : writeSink text u = (r, v))
    (ho : Orderly u.sinkCalls) (hpause : ∀ d ∈ u.sinkCalls, d.asksPause = false)
    (hready : u.capture = none → ∃ b, u.sinkCalls = b ++ [.poll .ready]) : v.Calm := by
  rw [writeSink_apply] at h
  split at h
  · cases h
    exact ⟨ho, fun _ => hpause⟩
  · rename_i hc
    obtain ⟨hevents, hholds⟩ : v.events = .append text (u.sink.append text).1 :: u.events ∧
        ((u.sink.append text).1 = .ok .notReady → v.holdsSink = true) := by
      dsimp only at h
      split at h <;> cases h <;> simp_all
    have hcalls : v.sinkCalls = _ := RenderState.sinkCalls_cons hevents rfl
    constructor <;> rw [hcalls]
    · exact ho.concat hpause fun _ _ _ => hready hc
    · intro hh d hd
      obtain hd | hd := List.mem_append.1 hd
      · exact hpause d hd
      · cases List.mem_singleton.1 hd
        unfold SinkCall.asksPause
        split <;> simp_all

end Activation

theorem RenderState.Calm.within {s : RenderState} {a : Activation} {out : Output} (h : s.Calm) :
    (s.within a out).Calm where
  orderly := by
    rw [sinkCalls_congr (s.within_events a out)]
    exact h.orderly
  holds hh := by
    rw [sinkCalls_congr (s.within_events a out)]
    exact h.holds (s.within_holdsSink a out ▸ hh)

theorem RenderState.Calm.back {s u : RenderState} {out : Output} (h : u.Calm) :
    (s.back u out).Calm where
  orderly := by
    rw [sinkCalls_congr (s.back_events u out)]
    exact h.orderly
  holds hh := by
    rw [sinkCalls_congr (s.back_events u out)]
    exact h.holds (s.back_holdsSink u out ▸ hh)

theorem RenderState.Quietly.calm {s u : RenderState} (h : s.Quietly u) (hs : s.Calm) : u.Calm where
  orderly := h.sinkCalls ▸ hs.orderly
  holds hh := h.sinkCalls ▸ hs.holds (h.holdsSink ▸ hh)

open Activation RenderState in
theorem Conduct.polite_lawful : Conduct.polite.Lawful where
  quiet h _ := h.calm
  andDone h h' hs := h' (h hs)
  andPaused h h' hs := h' (h hs)
  andFailed h h' hs := h' (h hs)
  fails h hs := (h hs).orderly
  lost h := h
  written h h' hs := by
    obtain ⟨ho, hp, hr⟩ := awaitSink_calm h hs
    exact writeSink_calm h' ho hp hr
  refused h h' hs := by
    obtain ⟨ho, hp, hr⟩ := awaitSink_calm h hs
    exact (writeSink_calm h' ho hp hr).orderly
  putOff h _ hs := (h.calm hs).orderly
  awaited _ _ h hs := awaitSink_orderly h hs
  returned h hs := (h hs.within).back
  inside _ _ h hs := by
    rw [sinkCalls_congr (back_events ..)]
    exact h hs.within
  left h hs := by
    rw [sinkCalls_congr (back_events ..)]
    exact h hs.within

/-- Something that happens in a render and its resumes: a call of the sink, a return to the driver,
or the driver resuming an outcome. -/
inductive Moment
  | sink (c : SinkCall)
  | returned (r : Except Stop Outcome)
  | resumed (o : Outcome)

def TemplateRef.IsCompiled : TemplateRef → Prop
  | .compiled .. => True
  | .host _ => False

structure Between (trace : List Moment) (s s' : RenderState) : Prop where
  sink : s'.sink = s.sink
  capture : s'.capture = none
  depth : s'.depth = s.depth
  holdsSink : s'.holdsSink = s.holdsSink
  events : s'.events = []
  cells : ∀ st, .returned (.ok (.suspended st)) ∈ trace → s'.cells[st.cell]? = s.cells[st.cell]?

/-- Holds of a call of the sink that may come after other moments. A write comes right after a poll
that was answered with ready. Since a sink asked for a pause, the driver has received a suspended
render and resumed it. -/
def SinkCall.MayFollow (c : SinkCall) (before : List Moment) : Prop :=
  (∀ chunk answer, c = .append chunk answer → ∃ b, before = b ++ [.sink (.poll .ready)]) ∧
    ∀ b d since, before = b ++ .sink d :: since → d.asksPause = true →
      ∃ st m₁ m₂ m₃, since = m₁ ++ .returned (.ok (.suspended st)) :: (m₂ ++
        .resumed (.suspended st) :: m₃)

/-- Holds of moments whose calls of the sink keep to the protocol. -/
def Polite (trace : List Moment) : Prop :=
  ∀ before c after, trace = before ++ .sink c :: after → c.MayFollow before

theorem Polite.append {trace rest : List Moment} (h : Polite trace)
    (hrest : ∀ before c after, rest = before ++ .sink c :: after → c.MayFollow (trace ++ before)) :
    Polite (trace ++ rest) := by
  intro before c after he
  obtain ⟨x, rfl, hx⟩ | ⟨x, rfl, hx⟩ := List.append_eq_append_iff.1 he
  · exact hrest x c after hx
  · cases x with
    | nil =>
      have := hrest [] c after hx.symm
      rwa [List.append_nil, List.append_nil] at this
    | cons y x =>
      rw [List.cons_append] at hx
      obtain ⟨rfl, -⟩ := List.cons.inj hx
      exact h before c x rfl

theorem Polite.concat {trace : List Moment} (h : Polite trace) {x : Moment}
    (hx : ∀ c, x ≠ .sink c) : Polite (trace ++ [x]) :=
  h.append fun before c after he => by
    cases before with
    | nil => exact absurd (List.cons.inj he).1 (hx c)
    | cons y before => cases before <;> cases he

theorem Polite.calls {trace : List Moment} (h : Polite trace) {calls : List SinkCall}
    (ho : Orderly calls)
    (hover : ∀ b d since, trace = b ++ .sink d :: since →
      ∃ st m₁ m₂ m₃, since = m₁ ++ .returned (.ok (.suspended st)) :: (m₂ ++
        .resumed (.suspended st) :: m₃)) :
    Polite (trace ++ calls.map .sink) := by
  refine h.append fun before c after he => ?_
  obtain ⟨l, l', rfl, rfl, hl⟩ := List.map_eq_append_iff.1 he
  obtain ⟨c', l', rfl, hc, rfl⟩ := List.map_eq_cons_iff.1 hl
  cases hc
  obtain ⟨hpause, hready⟩ := ho l c l' rfl
  refine ⟨fun chunk answer hc => ?_, fun b d since he hd => ?_⟩
  · obtain ⟨b, rfl⟩ := hready chunk answer hc
    exact ⟨trace ++ b.map .sink, by simp⟩
  · obtain ⟨x, rfl, hx⟩ | ⟨x, hx, he⟩ := List.append_eq_append_iff.1 he
    · obtain ⟨l₁, l₂, rfl, -, hx⟩ := List.map_eq_append_iff.1 hx
      obtain ⟨d', l₂, rfl, hd', -⟩ := List.map_eq_cons_iff.1 hx
      cases hd'
      rw [hpause d (by simp)] at hd
      cases hd
    · cases x with
      | nil =>
        rw [List.nil_append] at he
        obtain ⟨d', l₂, rfl, hd', -⟩ := List.map_eq_cons_iff.1 he.symm
        cases hd'
        rw [hpause d (by simp)] at hd
        cases hd
      | cons y x =>
        rw [List.cons_append] at he
        obtain ⟨rfl, rfl⟩ := List.cons.inj he
        obtain ⟨st, m₁, m₂, m₃, rfl⟩ := hover b d x hx
        exact ⟨st, m₁, m₂, m₃ ++ l.map .sink, by simp⟩

/-- A render and any number of resumes of what it and they return, on one sink and in one context,
with the state they leave. In between, the sink and the context are left alone. -/
inductive Driven : RenderState → List Moment → Prop
  | start {env : Env} {t : TemplateRef} {params : Record} {s u : RenderState}
      {r : Except Stop Outcome} :
      env.Reaches TemplateRef.IsCompiled → t.IsCompiled → s.events = [] →
      Render.start env t params s = (r, u) → Driven u (u.sinkCalls.map .sink ++ [.returned r])
  | resume {env : Env} {t : TemplateRef} {params : Record} {s s' u : RenderState}
      {r : Except Stop Outcome} {o : Outcome} {trace : List Moment} :
      Driven s trace → Between trace s s' → env.Reaches TemplateRef.IsCompiled →
      t.IsCompiled → .returned (.ok o) ∈ trace → Render.resume env t params o s' = (r, u) →
      Driven u (trace ++ [.resumed o] ++ u.sinkCalls.map .sink ++ [.returned r])

def Received (trace : List Moment) (st : ResumeState) : Prop :=
  .returned (.ok (.suspended st)) ∈ trace

/-- At most one suspended render is left to resume, and the sink has been left alone since it was
returned. -/
structure Live (trace : List Moment) (s : RenderState) (live : Option ResumeState) : Prop where
  taken : ∀ st, Received trace st → live ≠ some st → s.cells[st.cell]? = some none
  saved : ∀ st, live = some st → ∃ f, s.cells[st.cell]? = some (some f) ∧
    ∀ c ∈ f.calls, c.callee.IsCompiled
  since : ∀ st, live = some st → ∃ b m, trace = b ++ .returned (.ok (.suspended st)) :: m ∧
    ∀ c, .sink c ∉ m

theorem Render.outermost_polite {env : Env} {t : TemplateRef} {frames : Option Frames}
    {params : Record} {s u : RenderState} {r : Except Stop Outcome}
    (he : env.Reaches TemplateRef.IsCompiled) (ht : t.IsCompiled)
    (h : Render.outermost env t frames params s = (r, u))
    (hf : ∀ f, frames = some f → ∀ c ∈ f.calls, c.callee.IsCompiled) (hs : s.events = []) :
    Orderly u.sinkCalls ∧
      ((∃ st f, r = .ok (.suspended st) ∧ st.cell = s.cells.size ∧
          u.cells = s.cells.push (some f) ∧ ∀ c ∈ f.calls, c.callee.IsCompiled) ∨
        (∀ st, r ≠ .ok (.suspended st)) ∧ u.cells = s.cells) := by
  have hnone : s.sinkCalls = [] := by simp [RenderState.sinkCalls, hs]
  have hcalm : s.Calm := ⟨hnone ▸ .nil, fun _ d hd => by rw [hnone] at hd; cases hd⟩
  have hsettled := Conduct.outermost_settled
    (Conduct.leavesCells_lawful.and Conduct.polite_lawful) he (fun _ _ _ _ _ h => h.elim) ht hf
    params s
  rw [h] at hsettled
  cases hsettled with
  | done hu => exact ⟨(hu.2 hcalm).orderly, .inr ⟨fun _ h => (by cases h), hu.1⟩⟩
  | @suspended ops why v f hv hst hcs =>
    have hcells : v.cells = s.cells := hv.1
    have horderly : Orderly v.sinkCalls := hv.2 hcalm
    exact ⟨horderly, .inl ⟨_, f, rfl, congrArg Array.size hcells,
      congrArg (·.push (some f)) hcells, hcs⟩⟩
  | failed hu => exact ⟨hu.2 hcalm, .inr ⟨fun _ h => (by cases h), hu.1⟩⟩

theorem Live.of_cells {trace : List Moment} {s u : RenderState} {r : Except Stop Outcome}
    (hover : ∀ st, Received trace st → s.cells[st.cell]? = some none)
    (hcells : (∃ st f, r = .ok (.suspended st) ∧ st.cell = s.cells.size ∧
        u.cells = s.cells.push (some f) ∧ ∀ c ∈ f.calls, c.callee.IsCompiled) ∨
      (∀ st, r ≠ .ok (.suspended st)) ∧ u.cells = s.cells) :
    ∃ live, Live (trace ++ [.returned r]) u live := by
  have received : ∀ st, Received (trace ++ [.returned r]) st →
      Received trace st ∨ r = .ok (.suspended st) := by
    intro st hst
    obtain hst | hst := List.mem_append.1 hst
    · exact .inl hst
    · cases List.mem_singleton.1 hst
      exact .inr rfl
  obtain ⟨st, f, rfl, hcell, hu, hcs⟩ | ⟨hr, hu⟩ := hcells
  · refine ⟨some st, fun st' hst' hne => ?_, ?_, ?_⟩
    · obtain hst' | hst' := received st' hst'
      · have hold := hover st' hst'
        have hlt := (Array.getElem?_eq_some_iff.1 hold).1
        rw [hu, Array.getElem?_push_lt hlt, ← hold, Array.getElem?_eq_getElem hlt]
      · cases hst'
        exact absurd rfl hne
    · rintro _ ⟨⟩
      exact ⟨f, by rw [hu, hcell, Array.getElem?_push_size], hcs⟩
    · rintro _ ⟨⟩
      exact ⟨trace, [], rfl, fun _ h => (by cases h)⟩
  · refine ⟨none, fun st hst _ => ?_, fun _ h => (by cases h), fun _ h => (by cases h)⟩
    obtain hst | hst := received st hst
    · rw [hu]
      exact hover st hst
    · exact absurd hst (hr st)

theorem Live.refused {trace : List Moment} {s s' : RenderState} {live : Option ResumeState}
    (h : Live trace s live) (hb : Between trace s s') (o : Outcome) (e : RenderError) :
    Live (trace ++ [.resumed o] ++ [.returned (.error (.failure e))]) s' live := by
  have received : ∀ st, Received (trace ++ [.resumed o] ++ [.returned (.error (.failure e))]) st →
      Received trace st := by
    intro st hst
    simpa [Received] using hst
  refine ⟨fun st hst hne => ?_, fun st hl => ?_, fun st hl => ?_⟩
  · rw [hb.cells st (received st hst)]
    exact h.taken st (received st hst) hne
  · obtain ⟨f, hf, hcs⟩ := h.saved st hl
    obtain ⟨b, m, hbm, -⟩ := h.since st hl
    exact ⟨f, by rw [hb.cells st (by simp [hbm]), hf], hcs⟩
  · obtain ⟨b, m, hbm, hm⟩ := h.since st hl
    exact ⟨b, m ++ [.resumed o, .returned (.error (.failure e))], by simp [hbm], fun c hc => by
      simp [hm c] at hc⟩

theorem Live.over_since {trace : List Moment} {s : RenderState} {st : ResumeState}
    (h : Live trace s (some st)) {b since : List Moment} {d : SinkCall}
    (he : trace ++ [.resumed (.suspended st)] = b ++ .sink d :: since) :
    ∃ st m₁ m₂ m₃, since = m₁ ++ .returned (.ok (.suspended st)) :: (m₂ ++
      .resumed (.suspended st) :: m₃) := by
  obtain ⟨b₀, m, rfl, hm⟩ := h.since st rfl
  rw [List.append_assoc, List.cons_append] at he
  obtain ⟨x, rfl, hx⟩ | ⟨x, rfl, hx⟩ := List.append_eq_append_iff.1 he
  · -- The call would come after the return.
    cases x with
    | nil => cases hx
    | cons y x =>
      rw [List.cons_append] at hx
      obtain ⟨-, hx⟩ := List.cons.inj hx
      have hmem : Moment.sink d ∈ m ++ [.resumed (.suspended st)] := by simp [hx]
      simp [hm d] at hmem
  · cases x with
    | nil => cases hx
    | cons y x =>
      rw [List.cons_append] at hx
      obtain ⟨-, rfl⟩ := List.cons.inj hx
      exact ⟨st, x, m, [], rfl⟩

namespace Driven

variable {s : RenderState} {trace : List Moment}

theorem polite_live (h : Driven s trace) : Polite trace ∧ ∃ live, Live trace s live := by
  induction h with
  | @start env t params s u r he ht hs hrun =>
    have hrun : Render.outermost env t none params { s with holdsSink := false } = (r, u) := by
      simpa [Render.start, Render.takeHold, Render.bind_apply] using hrun
    obtain ⟨ho, hcells⟩ := Render.outermost_polite he ht hrun (fun _ h => (by cases h)) hs
    have hnil : Polite [] := fun before c after he => by cases before <;> cases he
    refine ⟨?_, Live.of_cells (fun st hst => ?_) hcells⟩
    · have := hnil.calls ho fun b d since he => by cases b <;> cases he
      exact this.concat fun c hc => by cases hc
    · simp [Received] at hst
  | @resume env t params s s' u r o trace _ hb he ht ho hrun ih =>
    obtain ⟨hpolite, live, hlive⟩ := ih
    have hresumed := hpolite.concat (x := .resumed o) fun c hc => by cases hc
    have hnone : s'.sinkCalls = [] := by simp [RenderState.sinkCalls, hb.events]
    have refused : ∀ e, Render.resume env t params o s' = (.error (.failure e), s') →
        Polite (trace ++ [.resumed o] ++ u.sinkCalls.map .sink ++ [.returned r]) ∧
          ∃ live, Live (trace ++ [.resumed o] ++ u.sinkCalls.map .sink ++ [.returned r]) u live := by
      intro e hrefuse
      cases hrun.symm.trans hrefuse
      rw [hnone, List.map_nil, List.append_nil]
      exact ⟨hresumed.concat fun c hc => (by cases hc), live, hlive.refused hb o e⟩
    cases o with
    | done => exact refused _ Render.resume_done
    | suspended st =>
      by_cases hname : env.library.nameOf t = st.template
      case neg => exact refused _ (Render.resume_foreign hname)
      by_cases hst : live = some st
      case neg =>
        exact refused _
          (Render.resume_taken hname (congrArg _ ((hb.cells st ho).trans (hlive.taken st ho hst))))
      subst hst
      obtain ⟨f, hf, hcs⟩ := hlive.saved st rfl
      have hcell := (hb.cells st ho).trans hf
      have hrun := (Render.resume_first hname hcell).symm.trans hrun
      obtain ⟨horderly, hcells⟩ := Render.outermost_polite he ht hrun
        (fun g hg => Option.some.inj hg ▸ hcs) hb.events
      have hlt := (Array.getElem?_eq_some_iff.1 hcell).1
      refine ⟨(hresumed.calls horderly fun b d since he => hlive.over_since he).concat
        fun c hc => (by cases hc), Live.of_cells (fun st' hst' => ?_) hcells⟩
      have hst' : Received trace st' := by simpa [Received] using hst'
      rw [Array.getElem?_setIfInBounds]
      split
      · rfl
      · rename_i hne
        rw [hb.cells st' hst']
        exact hlive.taken st' hst' fun he => hne (by cases he; rfl)

/-- Every render of compiled templates keeps to the protocol of its sink, however it is put off. -/
theorem polite (h : Driven s trace) : Polite trace := h.polite_live.1

/-- A greeting whose sink is not ready at first. -/
theorem polite_greeting :
    let saved : Outcome := .suspended ⟨"greeting", .sinkNotReady, 1, 0⟩
    let trace : List Moment := [.sink (.poll .notReady), .returned (.ok saved), .resumed saved,
      .sink (.poll .ready), .sink (.append "hi" (.ok .ready)), .returned (.ok .done)]
    (∃ s, Driven s trace) ∧ Polite trace := by
  intro saved trace
  let env : Env := .plain ⟨#[.greeting], #[], []⟩ 1
  have he : env.Reaches TemplateRef.IsCompiled :=
    ⟨fun _ _ _ _ => trivial, fun _ _ h => (by cases h), fun _ _ _ h => (by cases h)⟩
  let before : RenderState := .initial (.throttled (.of [0]))
  let started : RenderState := (Render.start env (.compiled 0 "greeting") [] before).2
  let between : RenderState := { started with events := [] }
  have hstart : Driven started [.sink (.poll .notReady), .returned (.ok saved)] :=
    @start env (.compiled 0 "greeting") [] before started (.ok saved) he trivial rfl rfl
  have hresume : Driven (Render.resume env (.compiled 0 "greeting") [] saved between).2 trace :=
    @resume env (.compiled 0 "greeting") [] started between _ (.ok .done) saved _ hstart
      ⟨rfl, rfl, rfl, rfl, rfl, fun _ _ => rfl⟩ he trivial (.tail _ (.head _)) rfl
  exact ⟨⟨_, hresume⟩, hresume.polite⟩

end Driven

end ResumableTemplates
