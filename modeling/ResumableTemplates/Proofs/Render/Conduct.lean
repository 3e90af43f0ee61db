import ResumableTemplates.Proofs.Render.Moves
import ResumableTemplates.Render.Resume

/-! The conduct of runs: what holds between the state in which a run begins and the one that it
leaves, by how it ends. It is enough that each op keeps to it and that a callee which does so does it
for its caller as well; nothing is asked of the templates but where their calls may lead. -/
namespace ResumableTemplates

namespace Render

theorem poll_apply (s : RenderState) : poll s =
    if s.capture.isSome then (.ok .ready, s)
    else (.ok s.sink.poll.1,
      { s with sink := s.sink.poll.2, events := .poll s.sink.poll.1 :: s.events }) := by
  cases hc : s.capture <;> simp [poll, bind_apply, hc]

theorem poll_ok (s : RenderState) : ∃ r u, poll s = (.ok r, u) := by
  rw [poll_apply]
  split <;> exact ⟨_, _, rfl⟩

theorem append_apply (text : String) (s : RenderState) : append text s =
    match s.capture with
    | some x => (.ok .ready, { s with capture := some (x ++ text) })
    | none => (ending ((s.sink.append text).1.mapError .sink),
      { s with
        sink := (s.sink.append text).2, events := .append text (s.sink.append text).1 :: s.events }) := by
  cases hc : s.capture with
  | some x => simp [append, bind_apply, hc]
  | none =>
    cases hr : (s.sink.append text).1 <;> simp [append, bind_apply, hc, hr] <;> rfl

theorem append_error {text : String} {e : Stop} {s u : RenderState}
    (h : append text s = (.error e, u)) : ∃ e', e = .failure (.sink e') := by
  rw [append_apply] at h
  split at h
  · cases h
  · cases hr : (s.sink.append text).1 <;> rw [hr] at h <;> cases h
    exact ⟨_, rfl⟩

theorem takeSaved_apply (cell : Nat) (s : RenderState) : takeSaved cell s =
    match (s.cells[cell]?).join with
    | none => (.error (.failure .doubleResume), s)
    | some f => (.ok f, { s with cells := s.cells.setIfInBounds cell none }) := by
  cases hc : (s.cells[cell]?).join <;> simp [takeSaved, bind_apply, hc]

end Render

/-- What is to hold between two states if a run is done, if it pauses at ops, the outermost first,
and if it fails. -/
structure Conduct where
  done : RenderState → RenderState → Prop
  paused : List Op → PauseReason → RenderState → RenderState → Prop
  failed : RenderState → RenderState → Prop

/-- Holds of a saved render with the ops that its templates were stopped at. -/
inductive Frames.StoppedAt (lib : Library) :
    TemplateRef → SavedActivation → List PendingCall → List Op → Prop
  | host : StoppedAt lib (.host i) s [] []
  | here (p : Nat) : lib.compiled? unit name = some t → t.procedure.ops[p]? = some op →
      op.point? = some s.point → StoppedAt lib (.compiled unit name) s [] [op]
  | inside (p : Nat) : lib.compiled? unit name = some t → t.procedure.ops[p]? = some op → op.IsCall →
      op.point? = some s.point → StoppedAt lib c.callee c.saved cs ops →
      StoppedAt lib (.compiled unit name) s (c :: cs) (op :: ops)

/-- Holds of a saved render that was stopped for a reason, with the ops that its templates were stopped
at. A call of its own is put off for a value only, and a template supplied from outside is put off where
it has a text left. -/
inductive Frames.PausedAt (lib : Library) (why : PauseReason) :
    TemplateRef → SavedActivation → List PendingCall → List Op → Prop
  | host : lib.hosts[i]? = some (.parts name texts) → s.point < texts.length →
      PausedAt lib why (.host i) s [] []
  | here (p : Nat) : lib.compiled? unit name = some t → t.procedure.ops[p]? = some op →
      op.point? = some s.point → (why = .sinkNotReady → ¬ op.IsCall) →
      PausedAt lib why (.compiled unit name) s [] [op]
  | inside (p : Nat) : lib.compiled? unit name = some t → t.procedure.ops[p]? = some op → op.IsCall →
      op.point? = some s.point → PausedAt lib why c.callee c.saved cs ops →
      PausedAt lib why (.compiled unit name) s (c :: cs) (op :: ops)

theorem Frames.PausedAt.stoppedAt {lib : Library} {why : PauseReason} {t : TemplateRef}
    {s : SavedActivation} {calls : List PendingCall} {ops : List Op}
    (h : PausedAt lib why t s calls ops) : StoppedAt lib t s calls ops := by
  induction h with
  | host => exact .host
  | here p hc ho hpoint => exact .here p hc ho hpoint
  | inside p hc ho hcall hpoint _ ih => exact .inside p hc ho hcall hpoint ih

namespace Conduct

variable (C : Conduct)

structure Lawful : Prop where
  quiet : s.Quietly u → s.Granted u → C.done s u
  andDone : C.done s u → C.done u v → C.done s v
  andPaused : C.done s u → C.paused ops why u v → C.paused ops why s v
  andFailed : C.done s u → C.failed u v → C.failed s v
  fails : C.done s u → C.failed s u
  lost : C.paused ops why s u → C.failed s u
  written : Activation.awaitSink s = (.ok (), u) → Activation.writeSink text u = (.ok (), v) →
    C.done s v
  refused : Activation.awaitSink s = (.ok (), u) →
    Activation.writeSink text u = (.error (.failure e), v) → C.failed s v
  putOff : s.Quietly u → s.Delayed .valueNotReady u → C.paused [op] .valueNotReady s u
  awaited : op.output? = some .sink → ¬ op.IsCall →
    Activation.awaitSink s = (.error (.pause .sinkNotReady), u) → C.paused [op] .sinkNotReady s u
  returned {s u : RenderState} {a : Activation} {out : Output} :
    C.done (s.within a out) u → C.done s (s.back u out)
  inside {s u : RenderState} {a : Activation} {out : Output} {op : Op} {ops : List Op}
    {why : PauseReason} : op.output? = some out → a.HasOutput out → C.paused ops why (s.within a out) u →
    C.paused (op :: ops) why s (s.back u out)
  left : C.failed (s.within a out) u → C.failed s (s.back u out)

variable (lib : Library) (reach : TemplateRef → Prop)

/-- What a run of a template comes to that keeps to a conduct. -/
inductive Kept (t : TemplateRef) (s : RenderState) :
    Except Stop FrameOutcome × RenderState → Prop
  | done : C.done s u → Kept t s (.ok .done, u)
  | paused : C.paused ops why s u → Frames.PausedAt lib why t f.outer f.calls ops →
      (∀ c ∈ f.calls, reach c.callee) →
      Kept t s (.ok (.paused f why), u)
  | failed : C.failed s u → Kept t s (.error (.failure e), u)

def KeptBy (run : Runner) : Prop :=
  ∀ t frames params held s, reach t → (∀ f, frames = some f → ∀ c ∈ f.calls, reach c.callee) →
    C.Kept lib reach t s (run t frames params held s)

inductive Halted (op : Op) (why : PauseReason) : List PendingCall → List Op → Prop
  | here : op.point? ≠ none → (why = .sinkNotReady → ¬ op.IsCall) → Halted op why [] [op]
  | inside : op.IsCall → Frames.PausedAt lib why c.callee c.saved cs ops → reach c.callee →
      (∀ d ∈ cs, reach d.callee) → Halted op why (c :: cs) (op :: ops)

inductive Went (a : Activation) (op : Op) (s : RenderState) :
    Except Stop Progress × RenderState → Prop
  | goto : C.done s u → a.Changed (fun _ => True) slots b → Went a op s (.ok (.goto q b), u)
  | paused : C.paused ops why s u → a.Changed (fun _ => True) slots b →
      Halted lib reach op why calls ops → Went a op s (.ok (.paused why b calls), u)
  | failed : C.failed s u → Went a op s (.error (.failure e), u)

inductive Stands (a : Activation) (t : TemplateRef) (s : RenderState) :
    Except Stop Standing × RenderState → Prop
  | ended : C.Kept lib reach t s (.ok o, u) → Stands a t s (.ok (.ended o), u)
  | running : C.done s u → a.Changed (fun _ => True) slots b →
      Stands a t s (.ok (.running q b), u)
  | failed : C.failed s u → Stands a t s (.error (.failure e), u)

inductive Settled (t : TemplateRef) (s : RenderState) : Except Stop Outcome × RenderState → Prop
  | done : C.done s u → Settled t s (.ok .done, u)
  | suspended : C.paused ops why s u → Frames.PausedAt lib why t f.outer f.calls ops →
      (∀ c ∈ f.calls, reach c.callee) →
      Settled t s (.ok (.suspended ⟨f.outer.template, why, f.depth, u.cells.size⟩),
        { u with cells := u.cells.push (some f) })
  | failed : C.failed s u → Settled t s (.error (.failure e), u)

variable {C lib reach} {env : Env} {run : Runner} {a : Activation} {t : TemplateRef}
  {s u : RenderState}

theorem Lawful.refl (hC : C.Lawful) : C.done s s := hC.quiet .refl .refl

theorem Kept.after (hC : C.Lawful) {r : Except Stop FrameOutcome × RenderState} (hs : C.done s u)
    (h : C.Kept lib reach t u r) : C.Kept lib reach t s r := by
  cases h with
  | done hd => exact .done (hC.andDone hs hd)
  | paused hp hf hc => exact .paused (hC.andPaused hs hp) hf hc
  | failed hf => exact .failed (hC.andFailed hs hf)

theorem Settled.of_suspended {st : ResumeState} (h : C.Settled lib reach t s (.ok (.suspended st), u)) :
    ∃ ops f v, C.paused ops st.reason s v ∧ Frames.PausedAt lib st.reason t f.outer f.calls ops ∧
      (∀ c ∈ f.calls, reach c.callee) ∧ u = { v with cells := v.cells.push (some f) } ∧
        u.cells[st.cell]? = some (some f) := by
  cases h with
  | suspended hp hst hcs => exact ⟨_, _, _, hp, hst, hcs, rfl, Array.getElem?_push_size⟩

theorem Halted.point {op : Op} {why : PauseReason} {calls : List PendingCall} {ops : List Op}
    (h : Halted lib reach op why calls ops) : ∃ point, op.point? = some point := by
  cases h with
  | here hop => exact Option.ne_none_iff_exists'.1 hop
  | inside hop =>
    obtain ⟨point, _, _, _, _, rfl⟩ := hop
    exact ⟨point, rfl⟩

theorem perform_went (hC : C.Lawful) (he : env.Reaches reach) (hrun : C.KeptBy env.library reach run)
    (ha : a.Reaches reach) {p : Nat} {op : Op} {act : Action}
    (hplan : a.plan env p op s = (.ok act, u)) (hq : s.Quietly u) (hg : s.Granted u) :
    (∃ why v ops, Activation.perform env run act u = (.error (.pause why), v) ∧
      C.paused ops why s v ∧ Halted env.library reach op why [] ops) ∨
    C.Went env.library reach a op s (Activation.perform env run act u) := by
  have hsu := hC.quiet hq hg
  have hch := Activation.plan_changes hplan
  cases act with
  | goto q b => exact .inr (.goto hsu hch.changed)
  | write text q b =>
    obtain ⟨rfl, hpoint, hout, hcall⟩ := hch.write _ _ _ rfl
    simp only [Activation.perform, Render.bind_apply]
    rcases hw : Activation.awaitSink u with ⟨e | _, v⟩
    · cases Activation.awaitSink_error hw
      exact .inl ⟨_, v, [op], rfl, hC.andPaused hsu (hC.awaited hout hcall hw),
        .here hpoint fun _ => hcall⟩
    · refine .inr ?_
      dsimp only
      rcases hx : Activation.writeSink text v with ⟨e | _, x⟩
      · obtain ⟨e, rfl⟩ := Activation.writeSink_error hx
        exact .failed (hC.andFailed hsu (hC.refused hw hx))
      · exact .goto (hC.andDone hsu (hC.written hw hx)) hch.changed
  | call out r frames params q b =>
    refine .inr ?_
    obtain ⟨hr, hf⟩ := Activation.plan_reaches he ha hplan
    obtain ⟨-, ⟨point, callee, base, args, rfl⟩, -⟩ := hch.call _ _ _ _ _ _ rfl
    simp only [Activation.perform, Render.bind_apply]
    obtain ⟨e, hx⟩ | ⟨hopen, henter⟩ := Activation.enter_cases env run b out r frames params u
    · rw [hx]
      exact .failed (hC.fails hsu)
    · have hkept := hrun r frames params (b.keeping r params) (u.within b out) hr hf
      rw [henter]
      generalize run r frames params (b.keeping r params) (u.within b out) = y at hkept ⊢
      have hac := Activation.called_changed hch
      cases hkept with
      | done hv => exact .goto (hC.andDone hsu (hC.returned hv)) (hac _)
      | paused hv hst hcs =>
        exact .paused (hC.andPaused hsu (hC.inside rfl hopen hv)) (hac _)
          (.inside ⟨_, _, _, _, _, rfl⟩ hst hr hcs)
      | failed hv => exact .failed (hC.andFailed hsu (hC.left hv))

theorem attempt_went (hC : C.Lawful) (he : env.Reaches reach) (hrun : C.KeptBy env.library reach run)
    (ha : a.Reaches reach) (p : Nat) (op : Op) (s : RenderState) :
    C.Went env.library reach a op s (a.attempt env run p op s) := by
  rw [Activation.attempt_apply, Activation.step, Render.bind_apply]
  have hquiet := Activation.plan_quiet env a p op
  have hq := hquiet.quietly s
  have hwhy := hquiet.reason s
  have hg := hquiet.granted s
  have hd := hquiet.delayed s
  rcases hplan : a.plan env p op s with ⟨(why | e) | act, u⟩ <;> rw [hplan] at hq hwhy hg hd
  · cases hwhy why rfl
    refine .paused (hC.putOff hq (hd _ rfl)) .none (.here (fun hn => ?_) fun h => by cases h)
    have w : World := ⟨env.library, env.lookup, 0, [], fun _ _ _ _ => .error .doubleResume,
      fun _ _ _ _ _ => .error .doubleResume, fun _ _ _ _ => false⟩
    rw [Activation.plan_of_point?_eq_none (w := w) hn, Render.liftM_apply] at hplan
    cases ha : a.action w p op <;> rw [ha] at hplan <;> cases hplan
  · exact .failed (hC.fails (hC.quiet hq (hg fun _ h => (by cases h))))
  · obtain ⟨why, v, ops, hp, hpaused, hhalted⟩ | hwent :=
      perform_went hC he hrun ha hplan hq (hg fun _ h => (by cases h))
    · simp only [hp]
      exact .paused hpaused .none hhalted
    · dsimp only
      generalize Activation.perform env run act u = r at hwent ⊢
      cases hwent with
      | goto hs hab => exact .goto hs hab
      | paused hs hab hh => exact .paused hs hab hh
      | failed hs => exact .failed hs

theorem Halted.kept (hC : C.Lawful) {p : Nat} {op : Op} {calls : List PendingCall} {ops : List Op}
    {why : PauseReason} (h : Halted env.library reach op why calls ops) {unit : Nat} {name : String}
    (hc : env.library.compiled? unit name = some a.template)
    (ho : a.template.procedure.ops[p]? = some op) (hp : C.paused ops why s u) :
    C.Kept env.library reach (.compiled unit name) s
      ((liftM (a.save (op.point?.getD 0) why calls) : Render FrameOutcome) u) := by
  obtain ⟨point, hpoint⟩ := h.point
  rw [Render.liftM_apply, Activation.save, hpoint, Option.getD_some]
  cases a.template.procedure.points[point]? with
  | none => exact .failed (hC.lost hp)
  | some e =>
    cases h with
    | here _ hcall => exact .paused hp (.here p hc ho hpoint hcall) fun _ hc => by cases hc
    | inside hcall hst hr hcs =>
      refine .paused hp (.inside p hc ho hcall hpoint hst) fun c hc => ?_
      cases hc with
      | head => exact hr
      | tail _ hc => exact hcs c hc

theorem execute_stands (hC : C.Lawful) (he : env.Reaches reach)
    (hrun : C.KeptBy env.library reach run) (fuel p : Nat) {unit : Nat} {name : String}
    (ha : a.Reaches reach) (hc : env.library.compiled? unit name = some a.template) (s : RenderState) :
    C.Stands env.library reach a (.compiled unit name) s (a.execute env run fuel p s) := by
  -- The conduct is kept from op to op; what each leads on to is an activation of the same template.
  induction fuel generalizing p a s with
  | zero => exact .running hC.refl .none
  | succ fuel ih =>
    rw [Activation.execute]
    cases ho : a.template.procedure.ops[p]? with
    | none => exact .ended (.done hC.refl)
    | some op =>
      have hwent := attempt_went hC he hrun ha p op s
      simp only [Render.bind_apply]
      generalize a.attempt env run p op s = r at hwent ⊢
      cases hwent with
      | failed hs => exact .failed hs
      | @goto u slots b q hs hab =>
        have := ih q (ha.changed hab) (by rw [hab.template]; exact hc) u
        dsimp only
        generalize b.execute env run fuel q u = r at this ⊢
        cases this with
        | ended hk => exact .ended (hk.after hC hs)
        | running hs' hbc =>
          exact .running (hC.andDone hs hs')
            ((hab.mono fun n hn => List.mem_append_left _ hn).trans
              (hbc.mono fun n hn => List.mem_append_right _ hn))
        | failed hs' => exact .failed (hC.andFailed hs hs')
      | @paused ops why u slots b calls hs hab hh =>
        have hcb : env.library.compiled? unit name = some b.template := hab.template ▸ hc
        have := hh.kept hC hcb (hab.template ▸ ho) hs
        simp only [Render.bind_apply]
        generalize (liftM (b.save (op.point?.getD 0) why calls) : Render FrameOutcome) u = r at this ⊢
        rcases r with ⟨e | o, v⟩
        · cases this with
          | failed hv => exact .failed hv
        · exact .ended this

theorem finish_kept (hC : C.Lawful) (he : env.Reaches reach)
    (hrun : C.KeptBy env.library reach run) (p : Nat) {unit : Nat} {name : String}
    (ha : a.Reaches reach) (hc : env.library.compiled? unit name = some a.template) (s : RenderState) :
    C.Kept env.library reach (.compiled unit name) s (a.finish env run p s) := by
  have hfirst := execute_stands hC he hrun Activation.patience p ha hc s
  simp only [Activation.finish, Render.bind_apply]
  generalize a.execute env run Activation.patience p s = r at hfirst ⊢
  cases hfirst with
  | ended hk => exact hk
  | failed hs => exact .failed hs
  | @running u slots b q hs hab =>
    have hrest := execute_stands hC he hrun (b.stepBound env) q (ha.changed hab)
      (by rw [hab.template]; exact hc) u
    simp only [Render.bind_apply]
    generalize b.execute env run (b.stepBound env) q u = r at hrest ⊢
    cases hrest with
    | ended hk => exact hk.after hC hs
    | failed hs' => exact .failed (hC.andFailed hs hs')
    | running hs' => exact .failed (hC.fails (hC.andDone hs hs'))

theorem runCompiled_kept (hC : C.Lawful) (he : env.Reaches reach)
    (hrun : C.KeptBy env.library reach run) {unit : Nat} {name : String} {t : CompiledTemplate}
    (hc : env.library.compiled? unit name = some t) (hr : reach (.compiled unit name))
    {frames : Option Frames} (hf : ∀ f, frames = some f → ∀ c ∈ f.calls, reach c.callee)
    (params : Record) (held : TemplateRef → Bool) (s : RenderState) :
    C.Kept env.library reach (.compiled unit name) s
      (runCompiled env run unit t frames params held s) := by
  simp only [runCompiled, Render.bind_apply, Render.liftM_apply]
  cases ha : Activation.start env.injected unit t params held with
  | error e => exact .failed (hC.fails hC.refl)
  | ok a =>
    obtain ⟨hu, ht, -, hw⟩ := Activation.start_eq ha
    have hreach : a.Reaches reach := ⟨by
      rw [hu]
      exact he.own _ name _ hr, fun _ _ h => by rw [hw] at h; cases h⟩
    cases frames with
    | none => exact finish_kept hC he hrun 0 hreach (ht ▸ hc) s
    | some f =>
      simp only [Render.ending_ok, Render.bind_apply, Render.liftM_apply]
      cases hb : a.restore f with
      | error e => exact .failed (hC.fails hC.refl)
      | ok r =>
        obtain ⟨p, b⟩ := r
        obtain ⟨hu', ht', -, hw'⟩ := Activation.restore_waiting hb
        refine finish_kept hC he hrun p ⟨?_, fun point calls h c hc => ?_⟩ ?_ s
        · rw [hu', ht']
          exact hreach.own
        · exact hf f rfl c (hw' point calls h ▸ hc)
        · rw [ht', ht]
          exact hc

/-- A run of a template keeps to a conduct that ops and host templates keep to. -/
theorem runWithin_kept (hC : C.Lawful) (he : env.Reaches reach)
    (hosts : ∀ i h frames params s, reach (.host i) → env.library.hosts[i]? = some h →
      C.Kept env.library reach (.host i) s (h.run env frames params s)) (levels : Nat) :
    C.KeptBy env.library reach (runWithin env levels) := by
  have runs : ∀ run, C.KeptBy env.library reach run →
      C.KeptBy env.library reach (runTemplate env run) := by
    intro run hrun t frames params held s ht hf
    cases t with
    | compiled unit name =>
      rw [runTemplate]
      cases hc : env.library.compiled? unit name with
      | none => exact .failed (hC.fails hC.refl)
      | some c => exact runCompiled_kept hC he hrun hc ht hf params held s
    | host i =>
      rw [runTemplate]
      cases hi : env.library.hosts[i]? with
      | none => exact .failed (hC.fails hC.refl)
      | some h => exact hosts i h frames params s ht hi
  induction levels with
  | zero => exact runs _ fun _ _ _ _ _ _ _ => .failed (hC.fails hC.refl)
  | succ levels ih => exact runs _ ih

theorem outermost_settled (hC : C.Lawful) (he : env.Reaches reach)
    (hosts : ∀ i h frames params s, reach (.host i) → env.library.hosts[i]? = some h →
      C.Kept env.library reach (.host i) s (h.run env frames params s)) (ht : reach t)
    {frames : Option Frames} (hf : ∀ f, frames = some f → ∀ c ∈ f.calls, reach c.callee)
    (params : Record) (s : RenderState) :
    C.Settled env.library reach t s (Render.outermost env t frames params s) := by
  have hkept := runWithin_kept hC he hosts (env.maxDepth - s.depth) t frames params
    (fun r => r = t) s ht hf
  simp only [Render.outermost, Render.bind_apply, Render.get_apply]
  generalize runWithin env _ t frames params _ s = x at hkept ⊢
  cases hkept with
  | done h => exact .done h
  | paused h hst hcs => exact .suspended h hst hcs
  | failed h => exact .failed h

structure Hosted (C : Conduct) : Prop where
  putOff {s u : RenderState} : Render.poll s = (.ok .notReady, u) → C.paused [] .sinkNotReady s u
  written {s u v : RenderState} : Render.poll s = (.ok .ready, u) →
    Render.append text u = (.ok r, v) → C.done s v
  refused {s u v : RenderState} : Render.poll s = (.ok .ready, u) →
    Render.append text u = (.error (.failure e), v) → C.failed s v

theorem run_kept (hC : C.Lawful) (hh : C.Hosted) (env : Env) {i : Nat} {h : HostTemplate}
    (hi : lib.hosts[i]? = some h) (frames : Option Frames) (params : Record) (s : RenderState) :
    C.Kept lib reach (.host i) s (h.run env frames params s) := by
  cases h with
  | probe name => exact .done (hC.quiet ⟨rfl, rfl, rfl, rfl, rfl, rfl⟩ (.event rfl rfl))
  | parts name texts =>
    have parts : ∀ (rest : List String) (part : Nat) (u : RenderState), rest = texts.drop part →
        C.done s u → C.Kept lib reach (.host i) s (runParts name part rest u) := by
      intro rest
      induction rest with
      | nil => exact fun part u _ hu => .done hu
      | cons x xs ih =>
        intro part u hrest hu
        obtain ⟨r, v, hpoll⟩ := Render.poll_ok u
        simp only [runParts, Render.bind_apply, hpoll]
        cases r with
        | notReady =>
          have hlt : part < texts.length := by
            have := congrArg List.length hrest
            simp only [List.length_cons, List.length_drop] at this
            omega
          exact .paused (hC.andPaused hu (hh.putOff hpoll)) (.host hi hlt) fun _ hc => by cases hc
        | ready =>
          rcases happend : Render.append x v with ⟨e | r, y⟩
          · obtain ⟨e, rfl⟩ := Render.append_error happend
            simp only [Render.bind_apply, happend]
            exact .failed (hC.andFailed hu (hh.refused hpoll happend))
          · simp only [Render.bind_apply, happend]
            refine ih (part + 1) y ?_ (hC.andDone hu (hh.written hpoll happend))
            rw [← List.drop_drop, ← hrest]
            rfl
    exact parts _ _ s rfl hC.refl

/-- Renders of all templates keep to a conduct that ops, polls and writes keep to. -/
theorem outermost_hosted (hC : C.Lawful) (hh : C.Hosted) (env : Env) (t : TemplateRef)
    (frames : Option Frames) (params : Record) (s : RenderState) :
    C.Settled env.library (fun _ => True) t s (Render.outermost env t frames params s) :=
  outermost_settled hC ⟨fun _ _ _ h => h, fun _ _ _ => trivial, fun _ _ _ _ => trivial⟩
    (fun _ _ frames params s _ hi => run_kept hC hh env hi frames params s) trivial
    (fun _ _ _ _ => trivial) params s

def and (C D : Conduct) : Conduct where
  done s u := C.done s u ∧ D.done s u
  paused ops why s u := C.paused ops why s u ∧ D.paused ops why s u
  failed s u := C.failed s u ∧ D.failed s u

theorem Lawful.and {C D : Conduct} (hC : C.Lawful) (hD : D.Lawful) : (C.and D).Lawful where
  quiet h hg := ⟨hC.quiet h hg, hD.quiet h hg⟩
  andDone h h' := ⟨hC.andDone h.1 h'.1, hD.andDone h.2 h'.2⟩
  andPaused h h' := ⟨hC.andPaused h.1 h'.1, hD.andPaused h.2 h'.2⟩
  andFailed h h' := ⟨hC.andFailed h.1 h'.1, hD.andFailed h.2 h'.2⟩
  fails h := ⟨hC.fails h.1, hD.fails h.2⟩
  lost h := ⟨hC.lost h.1, hD.lost h.2⟩
  written h h' := ⟨hC.written h h', hD.written h h'⟩
  refused h h' := ⟨hC.refused h h', hD.refused h h'⟩
  putOff h hd := ⟨hC.putOff h hd, hD.putOff h hd⟩
  awaited h h' h'' := ⟨hC.awaited h h' h'', hD.awaited h h' h''⟩
  returned h := ⟨hC.returned h.1, hD.returned h.2⟩
  inside h h' h'' := ⟨hC.inside h h' h''.1, hD.inside h h' h''.2⟩
  left h := ⟨hC.left h.1, hD.left h.2⟩

end Conduct

end ResumableTemplates
