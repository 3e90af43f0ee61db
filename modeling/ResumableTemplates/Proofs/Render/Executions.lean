import ResumableTemplates.Proofs.Render.Rendering

/-! Executions, op by op: what a template does with no bound on its ops, and none on its calls but the
limit of their depth. An execution comes with its instants, and there is only one of it. -/
namespace ResumableTemplates

/-- What a template is about to do. -/
inductive Doing
  | entry (t : TemplateRef) (frames : Option Frames) (params : Record)
  | op (position : Nat) (a : Activation)

/-- An instant of an execution: how many calls are under way, what the template that is called last is
about to do, and what the render has changed by then. -/
structure Instant where
  calls : Nat
  doing : Doing
  state : RenderState

structure Handover where
  callee : TemplateRef
  frames : Option Frames
  params : Record
  isHeld : TemplateRef → Bool
  state : RenderState

def Handover.answer (h : Handover) (run : Runner) : Except Stop FrameOutcome × RenderState :=
  run h.callee h.frames h.params h.isHeld h.state

def Activation.prepared (injected : Record) (unit : Nat) (t : CompiledTemplate)
    (frames : Option Frames) (params : Record) (isHeld : TemplateRef → Bool) :
    Except RenderError (Nat × Activation) := do
  let a ← start injected unit t params isHeld
  match frames with
  | none => return (0, a)
  | some f => a.restore f

theorem runCompiled_eq (env : Env) (run : Runner) (unit : Nat) (t : CompiledTemplate)
    (frames : Option Frames) (params : Record) (isHeld : TemplateRef → Bool) :
    runCompiled env run unit t frames params isHeld =
      liftM (Activation.prepared env.injected unit t frames params isHeld) >>= fun x =>
        x.2.finish env run x.1 := by
  unfold runCompiled Activation.prepared
  cases Activation.start env.injected unit t params isHeld with
  | error e => rfl
  | ok a => cases frames <;> rfl

namespace Activation

/-- Holds of the callee that an op hands over to: a call does so if it is not too deep and there is what
the callee is to write to. -/
inductive HandsOver (env : Env) (a : Activation) (p : Nat) (op : Op) (s : RenderState) :
    Handover → Prop
  | call {params : Record} : a.plan env p op s = (.ok (.call out r frames params q b), t) →
      t.depth < env.maxDepth → b.HasOutput out →
      HandsOver env a p op s ⟨r, frames, params, b.keeping r params, t.within b out⟩

variable {env : Env} {a : Activation} {p : Nat} {op : Op} {s : RenderState}

theorem HandsOver.unique {h h' : Handover} (hh : a.HandsOver env p op s h)
    (hh' : a.HandsOver env p op s h') : h = h' := by
  obtain ⟨hplan, -, -⟩ := hh
  obtain ⟨hplan', -, -⟩ := hh'
  cases hplan.symm.trans hplan'
  rfl

theorem HandsOver.depth {h : Handover} (hh : a.HandsOver env p op s h) :
    h.state.depth = s.depth + 1 ∧ s.depth < env.maxDepth := by
  obtain ⟨hplan, hd, -⟩ := hh
  have hquiet := ((a.plan_quiet env p op).quietly s).depth
  rw [hplan] at hquiet
  exact ⟨(RenderState.within_depth ..).trans (congrArg (· + 1) hquiet), hquiet ▸ hd⟩

inductive Overreaches (env : Env) (a : Activation) (p : Nat) (op : Op) (s : RenderState) :
    TemplateRef → Prop
  | call {params : Record} : a.plan env p op s = (.ok (.call out r frames params q b), t) →
      env.maxDepth ≤ s.depth → Overreaches env a p op s r

def returned (a b : Activation) (q : Nat) (t : RenderState) (out : Output) (h : Handover) :
    Except Stop FrameOutcome × RenderState → Except Stop Progress × RenderState
  | (.ok .done, u) => (.ok (.goto q (b.after u out)), t.back u out)
  | (.ok (.paused f why), u) =>
    (.ok (.paused why (b.after u out) (⟨h.callee, h.params, f.outer⟩ :: f.calls)), t.back u out)
  | (.error (.pause why), u) => (.ok (.paused why a []), t.back u out)
  | (.error (.failure e), u) => (.error (.failure e), t.back u out)

theorem returned_depth {q : Nat} {t : RenderState} {out : Output} {h : Handover}
    (y : Except Stop FrameOutcome × RenderState) :
    (a.returned b q t out h y).2.depth = y.2.depth - 1 := by
  rcases y with ⟨(_ | _) | _ | _, u⟩ <;> first | rfl | exact RenderState.back_depth t u out

theorem returned_failed {q : Nat} {t : RenderState} {out : Output} {h : Handover}
    {y : Except Stop FrameOutcome × RenderState} {e : RenderError} :
    (a.returned b q t out h y).1 = .error (.failure e) ↔ y.1 = .error (.failure e) := by
  rcases y with ⟨(_ | _) | _ | _, _⟩ <;> simp [returned]

theorem attempt_call {out : Output} {r : TemplateRef} {frames : Option Frames} {params : Record}
    {q : Nat} (run : Runner) (hplan : a.plan env p op s = (.ok (.call out r frames params q b), t))
    (hd : t.depth < env.maxDepth) (ho : b.HasOutput out) :
    a.attempt env run p op s =
      let h : Handover := ⟨r, frames, params, b.keeping r params, t.within b out⟩
      a.returned b q t out h (h.answer run) := by
  simp only [attempt_apply, step, Render.bind_apply, hplan, perform, enter_callee hd ho,
    Handover.answer]
  rcases run r frames params (b.keeping r params) (t.within b out) with
    ⟨(_ | _) | _ | _, _⟩ <;> rfl

theorem Overreaches.attempt {r : TemplateRef} (h : a.Overreaches env p op s r) (run : Runner) :
    ∃ t, t.depth = s.depth ∧ a.attempt env run p op s =
      (.error (.failure (.callDepthExceeded (env.library.nameOf r) env.maxDepth)), t) := by
  obtain ⟨hplan, hd⟩ := h
  have hquiet := ((a.plan_quiet env p op).quietly s).depth
  rw [hplan] at hquiet
  refine ⟨_, hquiet, ?_⟩
  rw [attempt_apply, step, Render.bind_apply, hplan]
  dsimp only [perform]
  rw [Render.bind_apply, enter_too_deep (hquiet ▸ hd)]

theorem Overreaches.unique {r r' : TemplateRef} (h : a.Overreaches env p op s r)
    (h' : a.Overreaches env p op s r') : r = r' := by
  obtain ⟨hplan, -⟩ := h
  obtain ⟨hplan', -⟩ := h'
  cases hplan.symm.trans hplan'
  rfl

theorem Overreaches.not_handsOver {r : TemplateRef} (h : a.Overreaches env p op s r) (g : Handover) :
    ¬ a.HandsOver env p op s g := fun hg => by
  obtain ⟨-, hd⟩ := h
  exact absurd hg.depth.2 (Nat.not_lt.2 hd)

theorem attempt_alone (run : Runner) (hover : ∀ r, ¬ a.Overreaches env p op s r)
    (hhand : ∀ h, ¬ a.HandsOver env p op s h) :
    (a.attempt env run p op s).2.depth = s.depth ∧
      (∀ name limit, (a.attempt env run p op s).1 ≠
        .error (.failure (.callDepthExceeded name limit))) ∧
      ∀ why b calls, (a.attempt env run p op s).1 = .ok (.paused why b calls) → calls = [] := by
  have hquiet := (a.plan_quiet env p op)
  have hdepth := (hquiet.quietly s).depth
  have hfails := hquiet.failure s
  rw [attempt_apply, step, Render.bind_apply]
  rcases hplan : a.plan env p op s with ⟨(why | e) | act, t⟩ <;> rw [hplan] at hdepth hfails
  · exact ⟨hdepth, fun _ _ h => (by cases h), fun _ _ _ h => by cases h; rfl⟩
  · refine ⟨hdepth, fun _ _ h => ?_, fun _ _ _ h => (by cases h)⟩
    cases h
    cases hfails _ rfl
  · cases act with
    | goto q b => exact ⟨hdepth, fun _ _ h => (by cases h), fun _ _ _ h => (by cases h)⟩
    | write text q b =>
      dsimp only [perform]
      rw [Render.bind_apply]
      rcases hw : awaitSink t with ⟨e | _, u⟩
      · cases awaitSink_error hw
        exact ⟨(awaitSink_leaves hw).2.trans hdepth, fun _ _ h => (by cases h),
          fun _ _ _ h => by cases h; rfl⟩
      · dsimp only
        rw [Render.bind_apply]
        rcases hx : writeSink text u with ⟨e | _, v⟩ <;>
          have hv := (writeSink_leaves hx).2.trans ((awaitSink_leaves hw).2.trans hdepth)
        · obtain ⟨e, rfl⟩ := writeSink_error hx
          exact ⟨hv, fun _ _ h => (by cases h), fun _ _ _ h => (by cases h)⟩
        · exact ⟨hv, fun _ _ h => (by cases h), fun _ _ _ h => (by cases h)⟩
    | call out r frames params q b =>
      have hroom : t.depth < env.maxDepth :=
        Nat.not_le.1 fun hd => hover r (.call hplan (hdepth ▸ hd))
      have hrefused : ¬ (t.depth < env.maxDepth ∧ b.HasOutput out) := fun h =>
        hhand _ (.call hplan h.1 h.2)
      obtain ⟨e, he, henter⟩ := enter_refused hrefused r frames params
      rw [if_neg (Nat.not_le.2 hroom)] at he
      dsimp only [perform]
      rw [Render.bind_apply, henter]
      refine ⟨hdepth, fun _ _ h => ?_, fun _ _ _ h => (by cases h)⟩
      cases h
      cases he

theorem attempt_paused {run : Runner} {why : PauseReason} {calls : List PendingCall} {t : RenderState}
    (hx : a.attempt env run p op s = (.ok (.paused why b calls), t)) : calls = [] ∨
      ∃ h f v, a.HandsOver env p op s h ∧ h.answer run = (.ok (.paused f why), v) ∧
        calls = ⟨h.callee, h.params, f.outer⟩ :: f.calls ∧ ∃ out q c u,
          a.plan env p op s = (.ok (.call out h.callee h.frames h.params q c), u) ∧ c.HasOutput out ∧
            b = c.after v out := by
  by_cases hover : ∃ r, a.Overreaches env p op s r
  · obtain ⟨r, hr⟩ := hover
    obtain ⟨t, -, hattempt⟩ := hr.attempt run
    cases hx.symm.trans hattempt
  by_cases hhand : ∃ h, a.HandsOver env p op s h
  · obtain ⟨h, hh⟩ := hhand
    have hh' := hh
    obtain ⟨hplan, hd, hopen⟩ := hh'
    rw [attempt_call run hplan hd hopen] at hx
    dsimp only at hx
    rcases hrun : Handover.answer _ run with ⟨(_ | _) | _ | ⟨f, _⟩, v⟩ <;> rw [hrun] at hx <;> cases hx
    · exact .inl rfl
    · exact .inr ⟨_, f, v, hh, hrun, rfl, _, _, _, _, hplan, hopen, rfl⟩
  · exact .inl ((attempt_alone run (not_exists.1 hover) (not_exists.1 hhand)).2.2 why b calls
      (congrArg Prod.fst hx))

theorem attempt_depth (run : Runner)
    (h : ∀ h, a.HandsOver env p op s h → (h.answer run).2.depth = h.state.depth) :
    (a.attempt env run p op s).2.depth = s.depth := by
  by_cases hover : ∃ r, a.Overreaches env p op s r
  · obtain ⟨r, hr⟩ := hover
    obtain ⟨t, ht, hattempt⟩ := hr.attempt run
    rw [hattempt]
    exact ht
  by_cases hhand : ∃ h, a.HandsOver env p op s h
  · obtain ⟨g, hg⟩ := hhand
    have hcallee := (h g hg).trans hg.depth.1
    obtain ⟨hplan, hd, ho⟩ := hg
    rw [attempt_call run hplan hd ho, returned_depth, hcallee, Nat.add_sub_cancel]
  · exact (attempt_alone run (not_exists.1 hover) (not_exists.1 hhand)).1

theorem attempt_exceeds (run : Runner) (name : String) (limit : Nat) :
    (a.attempt env run p op s).1 = .error (.failure (.callDepthExceeded name limit)) ↔
      (limit = env.maxDepth ∧ ∃ r, a.Overreaches env p op s r ∧ env.library.nameOf r = name) ∨
        ∃ h, a.HandsOver env p op s h ∧
          (h.answer run).1 = .error (.failure (.callDepthExceeded name limit)) := by
  by_cases hover : ∃ r, a.Overreaches env p op s r
  · obtain ⟨r, hr⟩ := hover
    obtain ⟨t, -, hattempt⟩ := hr.attempt run
    have hnone : ¬ ∃ h, a.HandsOver env p op s h ∧
        (h.answer run).1 = .error (.failure (.callDepthExceeded name limit)) :=
      fun ⟨h, hh, _⟩ => hr.not_handsOver h hh
    rw [hattempt, or_iff_left hnone]
    refine ⟨fun h => ?_, fun ⟨hlimit, r', hr', hname⟩ => ?_⟩
    · cases h
      exact ⟨rfl, r, hr, rfl⟩
    · rw [hlimit, ← hname, hr.unique hr']
  have hno : ¬ (limit = env.maxDepth ∧
      ∃ r, a.Overreaches env p op s r ∧ env.library.nameOf r = name) :=
    fun ⟨_, r, hr, _⟩ => hover ⟨r, hr⟩
  rw [or_iff_right hno]
  by_cases hhand : ∃ h, a.HandsOver env p op s h
  · obtain ⟨g, hg⟩ := hhand
    have hg' := hg
    obtain ⟨hplan, hd, ho⟩ := hg'
    rw [attempt_call run hplan hd ho, returned_failed]
    exact ⟨fun h => ⟨_, hg, h⟩, fun ⟨h, hh, he⟩ => hg.unique hh ▸ he⟩
  · exact ⟨fun h => absurd h ((attempt_alone run (not_exists.1 hover) (not_exists.1 hhand)).2.1 _ _),
      fun ⟨h, hh, _⟩ => (hhand ⟨h, hh⟩).elim⟩

/-- All that an op needs of a runner is what that makes of the callee. -/
theorem attempt_congr {run run' : Runner}
    (h : ∀ h, a.HandsOver env p op s h → h.answer run = h.answer run') :
    a.attempt env run p op s = a.attempt env run' p op s := by
  rw [attempt_apply, attempt_apply, step, step, Render.bind_apply, Render.bind_apply]
  rcases hplan : a.plan env p op s with ⟨e | act, t⟩
  · rfl
  · have hperform : perform env run act t = perform env run' act t := by
      cases act with
      | goto q b => rfl
      | write text q b => rfl
      | call out r frames params q b =>
        have henter : b.enter env run out r frames params t =
            b.enter env run' out r frames params t := by
          by_cases hd : t.depth < env.maxDepth ∧ b.HasOutput out
          · have hsame := h _ (.call hplan hd.1 hd.2)
            simp only [Handover.answer] at hsame
            rw [enter_callee hd.1 hd.2, enter_callee hd.1 hd.2, hsame]
          · obtain ⟨e, -, he⟩ := enter_refused hd r frames params
            rw [he, he]
        rw [perform, perform, Render.bind_apply, Render.bind_apply, henter]
    dsimp only
    rw [hperform]

end Activation

/-- What there is to execute: a template, the ops of an activation from a position on, or what comes after
an op. -/
inductive Task
  | template (t : TemplateRef) (frames : Option Frames) (params : Record)
      (isHeld : TemplateRef → Bool)
  | ops (position : Nat) (a : Activation)
  | rest (op : Op) (progress : Except Stop Progress)

def Handover.task (h : Handover) : Task := .template h.callee h.frames h.params h.isHeld

/-- Holds of what there is to execute inside a number of calls, with the instants of the execution and
what it comes to. -/
inductive Executes (env : Env) : (calls : Nat) → Task → RenderState → List Instant →
    Except Stop FrameOutcome × RenderState → Prop
  | host : Executes env n (.template (.host i) frames params held) s
      [⟨n, .entry (.host i) frames params, s⟩]
      (runTemplate env run (.host i) frames params held s)
  | missing : env.library.compiled? unit name = none →
      Executes env n (.template (.compiled unit name) frames params held) s
        [⟨n, .entry (.compiled unit name) frames params, s⟩]
        (.error (.failure (.templateNotFound name)), s)
  | unfit : env.library.compiled? unit name = some c →
      Activation.prepared env.injected unit c frames params held = .error e →
      Executes env n (.template (.compiled unit name) frames params held) s
        [⟨n, .entry (.compiled unit name) frames params, s⟩] (.error (.failure e), s)
  | template : env.library.compiled? unit name = some c →
      Activation.prepared env.injected unit c frames params held = .ok (p, a) →
      Executes env n (.ops p a) s instants y →
      Executes env n (.template (.compiled unit name) frames params held) s
        (⟨n, .entry (.compiled unit name) frames params, s⟩ :: instants) y
  | done : a.template.procedure.ops[p]? = none → Executes env n (.ops p a) s [] (.ok .done, s)
  | op (run : Runner) : a.template.procedure.ops[p]? = some op →
      (∀ h, a.HandsOver env p op s h → Executes env (n + 1) h.task h.state inside (h.answer run)) →
      ((∀ h, ¬ a.HandsOver env p op s h) → inside = []) →
      a.attempt env run p op s = (x, t) → Executes env n (.rest op x) t rest y →
      Executes env n (.ops p a) s (⟨n, .op p a, s⟩ :: (inside ++ rest)) y
  | goto : Executes env n (.ops q b) s instants y →
      Executes env n (.rest op (.ok (.goto q b))) s instants y
  | paused : Executes env n (.rest op (.ok (.paused why b calls))) s []
      (Render.ending (b.save (op.point?.getD 0) why calls), s)
  | failed : Executes env n (.rest op (.error e)) s [] (.error e, s)

namespace Executes

variable {env : Env} {n : Nat} {j : Task} {s : RenderState} {instants instants' : List Instant}
  {y y' : Except Stop FrameOutcome × RenderState}

/-- There is only one execution. -/
theorem unique (h : Executes env n j s instants y) (h' : Executes env n j s instants' y') :
    instants = instants' ∧ y = y' := by
  -- Both executions look at the same op in the same state, so they are the same at every step.
  induction h generalizing instants' y' with
  | host =>
    cases h'
    exact ⟨rfl, rfl⟩
  | missing hc =>
    cases h' with
    | missing => exact ⟨rfl, rfl⟩
    | unfit hc' | template hc' => cases hc.symm.trans hc'
  | unfit hc he =>
    cases h' with
    | missing hc' => cases hc.symm.trans hc'
    | unfit hc' he' =>
      cases hc.symm.trans hc'
      cases he.symm.trans he'
      exact ⟨rfl, rfl⟩
    | template hc' he' =>
      cases hc.symm.trans hc'
      cases he.symm.trans he'
  | template hc he _ ih =>
    cases h' with
    | missing hc' => cases hc.symm.trans hc'
    | unfit hc' he' =>
      cases hc.symm.trans hc'
      cases he.symm.trans he'
    | template hc' he' hops =>
      cases hc.symm.trans hc'
      cases he.symm.trans he'
      obtain ⟨rfl, rfl⟩ := ih hops
      exact ⟨rfl, rfl⟩
  | done ho =>
    cases h' with
    | done => exact ⟨rfl, rfl⟩
    | op _ ho' => cases ho.symm.trans ho'
  | @op p o n inside x t rest y a s run ho _ hidle hx _ ih ihrest =>
    cases h' with
    | done ho' => cases ho.symm.trans ho'
    | @op _ o' _ inside' x' t' rest' _ _ _ run' ho' hinside' hidle' hx' hrest' =>
      cases ho.symm.trans ho'
      -- Both runners stand for the same execution of the callee.
      have hcallee : inside = inside' ∧ ∀ h, a.HandsOver env p o s h → h.answer run = h.answer run' := by
        by_cases hh : ∃ h, a.HandsOver env p o s h
        · obtain ⟨h, hh⟩ := hh
          obtain ⟨hinstants, hanswer⟩ := ih h hh (hinside' h hh)
          exact ⟨hinstants, fun g hg => hg.unique hh ▸ hanswer⟩
        · have hnone : ∀ h, ¬ a.HandsOver env p o s h := fun h hh' => hh ⟨h, hh'⟩
          exact ⟨(hidle hnone).trans (hidle' hnone).symm, fun h hh' => (hnone h hh').elim⟩
      obtain ⟨rfl, hanswer⟩ := hcallee
      cases hx.symm.trans ((Activation.attempt_congr hanswer).trans hx')
      obtain ⟨rfl, rfl⟩ := ihrest hrest'
      exact ⟨rfl, rfl⟩
  | goto _ ih =>
    cases h' with
    | goto hops => exact ih hops
  | paused =>
    cases h'
    exact ⟨rfl, rfl⟩
  | failed =>
    cases h'
    exact ⟨rfl, rfl⟩

end Executes

end ResumableTemplates
