import ResumableTemplates.Proofs.Compile.Certified
import ResumableTemplates.Proofs.Render.Executions
import ResumableTemplates.Proofs.Render.OneShot
import ResumableTemplates.Proofs.Render.Runs

/-! Every render ends and every resume, whatever it goes on from. The ops of an activation have a rank that
each of them makes smaller, callees begin one level deeper, and there is a limit of that. So no bound on
the number of ops is ever what ends a run. -/
namespace ResumableTemplates

namespace Activation

variable {env : Env} {run : Runner} {a b : Activation} {p q : Nat} {op : Op} {s t : RenderState}

theorem attempt_moves {longest : Nat} (hop : op.longest ≤ longest)
    (hkeeps : a.Keeps (·.longest ≤ longest))
    (hinj : Record.All (·.longest ≤ longest) env.injected)
    (h : a.attempt env run p op s = (.ok (.goto q b), t)) :
    op.Moves longest p a.locals q b.locals ∧ b.Keeps (·.longest ≤ longest) ∧
      b.unit = a.unit ∧ b.template = a.template := by
  have hsupply : Supply (· ≤ longest) (·.longest ≤ longest) (env.world .empty) a :=
    ⟨Value.closed_longest longest, hkeeps, hinj⟩
  obtain ⟨act, u, hplan, rfl, hab, hact⟩ := attempt_goto h
  have hch := plan_ensures hsupply (Op.bears_of_longest hop) ⟨s, u, hplan⟩
  have hb := hab _ hch
  refine ⟨.of_changed hb hch.target hkeeps ?_, hb.keeps hkeeps, hb.unit, hb.template⟩
  rintro list cursor item index exit rfl
  rw [← hact.resolve_right fun h => h rfl]
  exact (Render.liftM_eq_ok.1 hplan).1

/-- A rank is below the number of steps that is worked out for an activation. -/
theorem rank_lt_stepBound {rank : Rank}
    (h : Ranked (a.longestList env) 0 a.template.procedure.ops.toList rank) (p : Nat)
    (ls : Array Local) : rank p ls < a.stepBound env := by
  refine lt_stepBound (Nat.le_trans (h.le p ls) (Nat.le_of_eq ?_))
  simp only [weight, Array.length_toList, Procedure.loops, Array.countP_toList]

theorem IsOf.prepared {lib : Library} {unit : Nat} {name : String} {c : CompiledTemplate}
    {frames : Option Frames} {injected params : Record} {held : TemplateRef → Bool}
    (hc : lib.compiled? unit name = some c)
    (h : Activation.prepared injected unit c frames params held = .ok (p, a)) : a.IsOf lib := by
  obtain ⟨b, hb, h⟩ := Except.bind_ok_iff.1 h
  cases frames with
  | none =>
    cases h
    exact .start hc hb
  | some f => exact IsOf.restore (.start hc hb) h

end Activation

theorem Standing.ended_injective {y y' : Except Stop FrameOutcome × RenderState}
    (h : (y.1.map Standing.ended, y.2) = (y'.1.map Standing.ended, y'.2)) : y = y' := by
  obtain ⟨_ | _, _⟩ := y <;> obtain ⟨_ | _, _⟩ := y' <;> cases h <;> rfl

section Runs

theorem Env.reaches_all (env : Env) : env.Reaches fun _ => True :=
  ⟨fun _ _ _ h => h, fun _ _ _ => trivial, fun _ _ _ _ => trivial⟩

variable {env : Env} {run : Runner} {d n : Nat}
  (hkeeps : Conduct.keepsDepth.KeptBy env.library (fun _ => True) run)
  (hrun : ∀ h : Handover, d < env.maxDepth → h.state.depth = d + 1 →
    ∃ instants, Executes env (n + 1) h.task h.state instants (h.answer run))

include hkeeps hrun

open Activation in
/-- Ops that are ranked are executed to their end, by any number of steps that is enough. -/
theorem exists_executes_ops {longest : Nat} {rank : Rank} {a : Activation} {p : Nat} {s : RenderState}
    (hrank : Ranked longest 0 a.template.procedure.ops.toList rank)
    (hops : ∀ op ∈ a.template.procedure.ops, op.longest ≤ longest)
    (ha : a.Keeps (·.longest ≤ longest)) (hinj : Record.All (·.longest ≤ longest) env.injected)
    (hd : s.depth = d) :
    ∃ instants y, Executes env n (.ops p a) s instants y ∧
      ∀ k, a.execute env run (rank p a.locals + k + 1) p s = (y.1.map .ended, y.2) := by
  -- Every op that leads on lowers the rank, so there is room for the steps that are left.
  induction hm : rank p a.locals using Nat.strongRecOn generalizing a p s with
  | ind m ih =>
  subst hm
  cases ho : a.template.procedure.ops[p]? with
  | none =>
    refine ⟨[], _, .done ho, fun k => ?_⟩
    rw [execute, ho]
    rfl
  | some op =>
    have hop := hops op (Array.mem_of_getElem? ho)
    obtain ⟨inside, hinside, hidle⟩ : ∃ inside, (∀ h, a.HandsOver env p op s h →
        Executes env (n + 1) h.task h.state inside (h.answer run)) ∧
          ((∀ h, ¬ a.HandsOver env p op s h) → inside = []) := by
      by_cases hh : ∃ h, a.HandsOver env p op s h
      · obtain ⟨h, hh⟩ := hh
        obtain ⟨hdepth, hlt⟩ := hh.depth
        obtain ⟨inside, hinside⟩ := hrun h (hd ▸ hlt) (hd ▸ hdepth)
        exact ⟨inside, fun g hg => hg.unique hh ▸ hinside, fun hnone => (hnone h hh).elim⟩
      · exact ⟨[], fun h hh' => (hh ⟨h, hh'⟩).elim, fun _ => rfl⟩
    rcases hx : a.attempt env run p op s with ⟨e | progress, t⟩
    · refine ⟨_, _, .op run ho hinside hidle hx .failed, fun k => ?_⟩
      simp only [execute, ho, Render.bind_apply, hx]
      rfl
    · cases progress with
      | paused why b calls =>
        refine ⟨_, _, .op run ho hinside hidle hx .paused, fun k => ?_⟩
        simp only [execute, ho, Render.bind_apply, hx, Render.liftM_apply]
        cases b.save (op.point?.getD 0) why calls <;> rfl
      | goto q b =>
        obtain ⟨hmoves, hb, -, ht⟩ := attempt_moves hop ha hinj hx
        have hwent := Conduct.attempt_went Conduct.keepsDepth_lawful env.reaches_all hkeeps
          (a := a) ⟨trivial, fun _ _ _ _ _ => trivial⟩ p op s
        rw [hx] at hwent
        have hdepth : t.depth = s.depth := by
          cases hwent with
          | goto h => exact h
        have hfalls : op.Falls longest rank 0 (0 + a.template.procedure.ops.toList.length) p :=
          Nat.zero_add p ▸ hrank.falls.get (i := p) (by rwa [Array.getElem?_toList])
        have hlt := (hfalls _ _ _ hmoves).2.2
        obtain ⟨rest, y, hexec, hsteps⟩ :=
          ih _ hlt (ht ▸ hrank) (ht ▸ hops) hb (hdepth.trans hd) rfl
        refine ⟨_, y, .op run ho hinside hidle hx (.goto hexec), fun k => ?_⟩
        obtain ⟨j, hj⟩ := Nat.exists_eq_add_of_lt hlt
        simp only [execute, ho, Render.bind_apply, hx]
        rw [hj, show rank q b.locals + j + 1 + k = rank q b.locals + (j + k) + 1 by omega]
        exact hsteps (j + k)

variable (hlib : env.library.IsCompiled)

include hlib

theorem exists_executes_finish {a : Activation} (ha : a.IsOf env.library) (p : Nat) {s : RenderState}
    (hd : s.depth = d) : ∃ instants, Executes env n (.ops p a) s instants (a.finish env run p s) := by
  have executes : ∀ {b : Activation}, b.IsOf env.library → ∀ q {u : RenderState}, u.depth = d →
      ∃ rank : Rank, (∀ ls, rank q ls < b.stepBound env) ∧
        ∃ instants y, Executes env n (.ops q b) u instants y ∧
          ∀ k, b.execute env run (rank q b.locals + k + 1) q u = (y.1.map .ended, y.2) := by
    intro b hb q u hu
    obtain ⟨rank, hrank⟩ := hlib.ranked hb (b.longestList env)
    obtain ⟨hops, hkeep, hinj⟩ := b.longestList_bounds env
    exact ⟨rank, Activation.rank_lt_stepBound hrank q,
      exists_executes_ops hkeeps hrun hrank hops hkeep hinj hu⟩
  obtain ⟨rank, -, instants, y, hexec, hsteps⟩ := executes ha p hd
  suffices hfinish : a.finish env run p s = y from ⟨instants, hfinish ▸ hexec⟩
  -- Whatever the patience, with enough steps on top of it the ops are executed.
  have hmore := hsteps Activation.patience
  rw [Nat.add_right_comm, Nat.add_comm] at hmore
  rw [Activation.finish, Render.bind_apply]
  rcases hx : a.execute env run Activation.patience p s with ⟨e | standing, u⟩
  · rw [Activation.execute_add _ (fun q b h => by rw [hx] at h; cases h), hx] at hmore
    exact Standing.ended_injective (y := (.error e, u)) hmore
  · cases standing with
    | ended o =>
      rw [Activation.execute_add _ (fun q b h => by rw [hx] at h; cases h), hx] at hmore
      exact Standing.ended_injective (y := (.ok o, u)) hmore
    | running q b =>
      have hu : u.depth = s.depth := by
        have hstands := Conduct.execute_stands Conduct.keepsDepth_lawful env.reaches_all hkeeps
          Activation.patience p (a := a) ⟨trivial, fun _ _ _ _ _ => trivial⟩ ha s
        rw [hx] at hstands
        cases hstands with
        | running h => exact h
      obtain ⟨rank', hbound, -, y', -, hsteps'⟩ :=
        executes (Activation.execute_isOf ha hx) q (hu.trans hd)
      obtain rfl : y = y' := Standing.ended_injective <| by
        rw [← hsteps (Activation.patience + rank' q b.locals), ← hsteps' (rank p a.locals),
          ← Activation.execute_running hx]
        congr 1
        omega
      obtain ⟨j, hj⟩ := Nat.exists_eq_add_of_lt (hbound b.locals)
      simp only [Render.bind_apply]
      rw [hj, hsteps']
      obtain ⟨_ | _, _⟩ := y <;> rfl

theorem exists_executes_template (t : TemplateRef) (frames : Option Frames) (params : Record)
    (held : TemplateRef → Bool) {s : RenderState} (hd : s.depth = d) :
    ∃ instants, Executes env n (.template t frames params held) s instants
      (runTemplate env run t frames params held s) := by
  cases t with
  | host i => exact ⟨_, .host⟩
  | compiled unit name =>
    rw [runTemplate]
    cases hc : env.library.compiled? unit name with
    | none => exact ⟨_, .missing hc⟩
    | some c =>
      dsimp only
      rw [runCompiled_eq, Render.bind_apply, Render.liftM_apply]
      cases ha : Activation.prepared env.injected unit c frames params held with
      | error e => exact ⟨_, .unfit hc ha⟩
      | ok x =>
        obtain ⟨instants, hexec⟩ := exists_executes_finish hkeeps hrun hlib (.prepared hc ha) x.1 hd
        exact ⟨_, .template hc ha hexec⟩

end Runs

/-- What a run comes to in which calls nest as deep as they may is the execution of its template. -/
theorem exists_executes {env : Env} (hlib : env.library.IsCompiled) (levels n : Nat)
    (t : TemplateRef) (frames : Option Frames) (params : Record) (held : TemplateRef → Bool)
    {s : RenderState} (hlevels : env.maxDepth ≤ s.depth + levels) :
    ∃ instants, Executes env n (.template t frames params held) s instants
      (runWithin env levels t frames params held s) := by
  induction levels generalizing n t frames params held s with
  | zero =>
    exact exists_executes_template (fun _ _ _ _ _ _ _ => .failed rfl)
      (fun h hlt => absurd hlt (Nat.not_lt.2 hlevels)) hlib t frames params held rfl
  | succ levels ih =>
    have hkeeps := Conduct.runWithin_kept Conduct.keepsDepth_lawful env.reaches_all
      (fun _ _ frames params s _ hi =>
        Conduct.run_kept Conduct.keepsDepth_lawful Conduct.keepsDepth_hosted env hi frames params s)
      levels
    exact exists_executes_template hkeeps
      (fun h _ hh => ih (n + 1) h.callee h.frames h.params h.isHeld (by omega)) hlib t frames params
      held rfl

def Call.admitted (c : Call) : Render (Option Frames) :=
  match c.source with
  | none => do
    let _ ← Render.takeHold
    return none
  | some .done => Render.fail .alreadyComplete
  | some (.suspended st) => do
    let expected := c.env.library.nameOf c.template
    if st.template ≠ expected then Render.fail (.wrongTemplate st.template expected)
    some <$> Render.takeSaved st.cell

theorem Call.run_eq (c : Call) :
    c.run = c.admitted >>= fun frames => Render.outermost c.env c.template frames c.params := by
  unfold run admitted
  cases c.source with
  | none => rfl
  | some o =>
    cases o with
    | done => rfl
    | suspended st =>
      funext s
      by_cases h : st.template = c.env.library.nameOf c.template
      · simp only [Render.resume, h, ne_eq, not_true_eq_false, if_false, Render.bind_apply,
          Render.map_apply]
        rcases Render.takeSaved st.cell s with ⟨_ | _, _⟩ <;> rfl
      · simp only [Render.resume, h, ne_eq, not_false_eq_true, if_true, Render.bind_apply]
        rfl

def FrameOutcome.returned : Except Stop FrameOutcome × RenderState →
    Except Stop Outcome × RenderState
  | (.ok .done, s) => (.ok .done, s)
  | (.ok (.paused f why), s) => Render.suspend f why s
  | (.error e, s) => (.error e, s)

def Call.task (c : Call) (frames : Option Frames) : Task :=
  .template c.template frames c.params fun t => t = c.template

/-- Holds of the instants of a call, none if it is refused, and of what it comes to. -/
inductive Call.Performs (c : Call) (s : RenderState) : List Instant →
    Except Stop Outcome × RenderState → Prop
  | refused : c.admitted s = (.error e, t) → Performs c s [] (.error e, t)
  | executed : c.admitted s = (.ok frames, t) → Executes c.env 0 (c.task frames) t instants y →
      Performs c s instants (FrameOutcome.returned y)

theorem Call.Performs.unique {c : Call} {s : RenderState} {instants instants' : List Instant}
    {y y' : Except Stop Outcome × RenderState} (h : c.Performs s instants y)
    (h' : c.Performs s instants' y') : instants = instants' ∧ y = y' := by
  cases h with
  | refused ha =>
    cases h' with
    | refused ha' =>
      cases ha.symm.trans ha'
      exact ⟨rfl, rfl⟩
    | executed ha' => cases ha.symm.trans ha'
  | executed ha hexec =>
    cases h' with
    | refused ha' => cases ha.symm.trans ha'
    | executed ha' hexec' =>
      cases ha.symm.trans ha'
      obtain ⟨rfl, rfl⟩ := hexec.unique hexec'
      exact ⟨rfl, rfl⟩

theorem Call.exists_performs {c : Call} (hlib : c.env.library.IsCompiled) (s : RenderState) :
    ∃ instants, c.Performs s instants (c.run s) := by
  rw [run_eq, Render.bind_apply]
  rcases ha : c.admitted s with ⟨e | frames, t⟩
  · exact ⟨[], .refused ha⟩
  · obtain ⟨instants, hexec⟩ := exists_executes hlib (c.env.maxDepth - t.depth) 0 c.template frames
      c.params (fun r => r = c.template) (s := t) (by omega)
    have hreturned : Render.outermost c.env c.template frames c.params t = FrameOutcome.returned
        (runWithin c.env (c.env.maxDepth - t.depth) c.template frames c.params
          (fun r => r = c.template) t) := by
      rw [Render.outermost, Render.bind_apply, Render.get_apply]
      dsimp only
      rw [Render.bind_apply]
      rcases runWithin c.env (c.env.maxDepth - t.depth) c.template frames c.params
        (fun r => r = c.template) t with ⟨_ | _ | _, _⟩ <;> rfl
    dsimp only
    exact ⟨instants, hreturned ▸ .executed ha hexec⟩

/-- Every render of compiled templates and every resume is a finite number of ops, one after another,
whatever the records, the lookup, the sink and the limit of calls, and whatever it goes on from. There is
one such execution, and no other bound has a part in what comes of it. -/
theorem Call.terminates {c : Call} (hlib : c.env.library.IsCompiled) (s : RenderState) :
    ∃ instants, c.Performs s instants (c.run s) ∧
      ∀ instants' y, c.Performs s instants' y → instants' = instants ∧ y = c.run s := by
  obtain ⟨instants, h⟩ := exists_performs hlib s
  exact ⟨instants, h, fun instants' y h' => h'.unique h⟩

def TemplateFile.echo : TemplateFile :=
  ⟨"", [], [{ Template.empty "echo" with
    body := [.text "hello ", .call (.template "echo") .none []] }]⟩

def CompiledUnit.echo : CompiledUnit where
  templates := [⟨"echo", false, .html,
    ⟨#[.text 0 .sink "hello ", .call 1 .sink (.template 0 "echo") .none []],
      #[⟨0, []⟩, ⟨1, []⟩], #[], [], []⟩, [(0, "echo")]⟩]
  metadata := TemplateFile.echo.templates.map (Metadata.of .echo)
  tables := .empty

def Library.echo : Library := ⟨#[.echo], #[], []⟩

theorem CompiledUnit.echo_compiled : compile {} [.echo] .empty = .ok echo := by
  refine compile_single rfl ?_
  rw [Template.compile_eq]
  rfl

theorem Library.echo_isCompiled : echo.IsCompiled := by
  intro u hu
  obtain rfl : u = .echo := by simpa [echo] using hu
  exact ⟨{}, [.echo], .empty, CompiledUnit.echo_compiled⟩

/-- A template that calls itself for ever comes to an end at the limit of calls. -/
theorem Call.terminates_echo :
    let c : Call := ⟨.plain .echo 2, .compiled 0 "echo", [], none⟩
    let s := RenderState.initial (.buffer "")
    c.env.library.IsCompiled ∧ (c.run s).2.chunks = ["hello ", "hello ", "hello "] ∧
      ∃ instants, c.Performs s instants (c.run s) ∧
        ∀ instants' y, c.Performs s instants' y → instants' = instants ∧ y = c.run s := by
  intro c s
  have hchunks : (c.run s).2.chunks = ["hello ", "hello ", "hello "] := by decide +kernel
  exact ⟨Library.echo_isCompiled, hchunks, terminates Library.echo_isCompiled s⟩

end ResumableTemplates
