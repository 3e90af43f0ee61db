import ResumableTemplates.Proofs.Procedure.Flow
import ResumableTemplates.Proofs.Render.Manner
import ResumableTemplates.Proofs.Render.Moves
import ResumableTemplates.Render.Resume

/-! Renders in a manner. What the basic steps of a render have in common, every render has and every
resume, whatever it reads and wherever it stops, if all that its templates refer to is found in the same
manner. -/
namespace ResumableTemplates

def Activation.IsOf (lib : Library) (a : Activation) : Prop :=
  lib.compiled? a.unit a.template.name = some a.template

namespace Activation

variable {env : Env} {run : Runner} {a b : Activation} {lib : Library} {s t : RenderState}

theorem IsOf.start {unit : Nat} {name : String} {c : CompiledTemplate} {injected params : Record}
    {held : TemplateRef → Bool} (hc : lib.compiled? unit name = some c)
    (h : start injected unit c params held = .ok a) : a.IsOf lib := by
  obtain ⟨hu, ht, -⟩ := start_eq h
  rw [IsOf, hu, ht, Library.name_of_compiled? hc]
  exact hc

theorem IsOf.restore {f : Frames} {p : Nat} (ha : a.IsOf lib) (h : a.restore f = .ok (p, b)) :
    b.IsOf lib := by
  obtain ⟨hu, ht, -⟩ := restore_waiting h
  rw [IsOf, hu, ht]
  exact ha

theorem attempt_isOf (ha : a.IsOf lib) {p q : Nat} {op : Op}
    (h : a.attempt env run p op s = (.ok (.goto q b), t)) : b.IsOf lib := by
  obtain ⟨act, u, hplan, -, hab, -⟩ := attempt_goto h
  have hch := hab _ (plan_changes hplan)
  rw [IsOf, hch.unit, hch.template]
  exact ha

theorem execute_isOf {fuel p q : Nat} (ha : a.IsOf lib)
    (h : a.execute env run fuel p s = (.ok (.running q b), t)) : b.IsOf lib := by
  induction fuel generalizing p a s with
  | zero =>
    cases h
    exact ha
  | succ fuel ih =>
    unfold execute at h
    cases ho : a.template.procedure.ops[p]? with
    | none =>
      rw [ho] at h
      cases h
    | some op =>
      rw [ho] at h
      obtain ⟨progress, u, hx, h⟩ := Render.bind_eq_ok.1 h
      cases progress with
      | goto r c => exact ih (attempt_isOf ha hx) h
      | paused why c calls =>
        obtain ⟨o, v, -, h⟩ := Render.bind_eq_ok.1 h
        cases h

end Activation

namespace Manner

variable (M : Manner)

/-- Holds of the manners that renders are in if their parts are. -/
structure Lawful (env : Env) : Prop extends M.Evaluates env where
  stop : ∀ {α : Type} (e : Stop), M (throw e : Render α)
  poll : M Render.poll
  append : ∀ chunk, M (Render.append chunk)
  takeHold : M Render.takeHold
  holdSink : M Render.holdSink
  probe : ∀ name params, M (Render.note (.probe name params env.injected))
  deeper : ∀ {α : Type} {r : Render α} callee, M r → M (Render.deeper env callee r)
  capturing : ∀ {α : Type} {r : Render α} text, M r → M (Render.capturing text r)
  caught : ∀ {α : Type} {r : Render α} {g : Stop → Render α} {f : PauseReason → α}, M r →
    (∀ why, g (.pause why) = Pure.pure (f why)) → (∀ e, g (.failure e) = Render.fail e) →
      M (tryCatch r g)
  depth : M (RenderState.depth <$> get)
  suspend : ∀ frames reason, M (Render.suspend frames reason)
  takeSaved : ∀ cell, M (Render.takeSaved cell)

def Serves (env : Env) : Prop :=
  ∀ (a : Activation) op, a.IsOf env.library → op ∈ a.template.procedure.ops → M.Finds env a op

def Of (run : Runner) : Prop := ∀ t frames params held, M (run t frames params held)

variable {M} {env : Env} (hM : M.Lawful env) (hs : M.Serves env) {run : Runner} (hrun : M.Of run)

section Steps

include hM

theorem awaitSink : M Activation.awaitSink := by
  refine hM.andThen hM.takeHold fun held => ?_
  cases held with
  | true => exact hM.stop _
  | false =>
    refine hM.andThen hM.poll fun r => ?_
    cases r with
    | ready => exact hM.pure _
    | notReady => exact hM.stop _

theorem writeSink (text : String) : M (Activation.writeSink text) := by
  refine hM.andThen (hM.append text) fun r => ?_
  cases r with
  | ready => exact hM.pure _
  | notReady => exact hM.holdSink

include hrun

theorem perform (act : Action) : M (Activation.perform env run act) := by
  cases act with
  | goto q b => exact hM.pure _
  | write text q b =>
    exact hM.andThen (awaitSink hM) fun _ => hM.andThen (writeSink hM text) fun _ => hM.pure _
  | call out callee frames params q b =>
    have henter : M (b.enter env run out callee frames params) := by
      refine hM.deeper _ ?_
      cases out with
      | sink => exact hM.andThen (hrun _ _ _ _) fun _ => hM.pure _
      | buffer slot =>
        exact hM.andThen (hM.lift (.buffer b slot)) fun text =>
          hM.andThen (hM.capturing text (hrun _ _ _ _)) fun _ =>
            hM.andThen (hM.lift (.set b slot _)) fun _ => hM.pure _
    refine hM.andThen henter fun x => ?_
    obtain ⟨o, c⟩ := x
    cases o <;> exact hM.pure _

include hs

theorem attempt {a : Activation} (ha : a.IsOf env.library) {op : Op}
    (hop : op ∈ a.template.procedure.ops) (p : Nat) : M (a.attempt env run p op) :=
  hM.caught (hM.andThen (plan hM.toEvaluates (hs a op ha hop) p) fun act => perform hM hrun act)
    (fun _ => rfl) fun _ => rfl

theorem execute (fuel p : Nat) {a : Activation} (ha : a.IsOf env.library) :
    M (a.execute env run fuel p) := by
  induction fuel generalizing p a with
  | zero => exact hM.pure _
  | succ fuel ih =>
    unfold Activation.execute
    cases ho : a.template.procedure.ops[p]? with
    | none => exact hM.pure _
    | some op =>
      refine hM.bind (attempt hM hs hrun ha (Array.mem_of_getElem? ho) p) fun progress hx => ?_
      cases progress with
      | goto q b =>
        obtain ⟨s, t, hx⟩ := hx
        exact ih q (Activation.attempt_isOf ha hx)
      | paused why b calls =>
        refine hM.andThen (hM.lift ?_) fun o => hM.pure _
        unfold Activation.save
        split
        · exact .contradiction b _
        · exact .ok _

theorem finish (p : Nat) {a : Activation} (ha : a.IsOf env.library) : M (a.finish env run p) := by
  refine hM.bind (execute hM hs hrun _ p ha) fun standing hx => ?_
  cases standing with
  | ended o => exact hM.pure o
  | running q b =>
    obtain ⟨s, t, hx⟩ := hx
    refine hM.andThen (execute hM hs hrun _ q (Activation.execute_isOf ha hx)) fun standing => ?_
    cases standing with
    | ended o => exact hM.pure o
    | running r c => exact hM.lift (.contradiction c _)

theorem runCompiled {unit : Nat} {name : String} {c : CompiledTemplate}
    (hc : env.library.compiled? unit name = some c) (frames : Option Frames) (params : Record)
    (held : TemplateRef → Bool) : M (runCompiled env run unit c frames params held) := by
  have hlift : ∀ {α β : Type} (x : Except RenderError α) (f : α → Render β),
      (∀ a, x = .ok a → M (f a)) → M ((liftM x : Render α) >>= f) := by
    intro α β x f hf
    cases x with
    | ok a => exact hf a rfl
    | error e => exact hM.stop (.failure e)
  refine hlift _ _ fun a ha => ?_
  have ha := Activation.IsOf.start hc ha
  cases frames with
  | none => exact finish hM hs hrun 0 ha
  | some f => exact hlift _ _ fun r hr => finish hM hs hrun r.1 (ha.restore hr)

end Steps

include hM

theorem runParts (name : String) (part : Nat) (texts : List String) :
    M (runParts name part texts) := by
  induction texts generalizing part with
  | nil => exact hM.pure _
  | cons x xs ih =>
    refine hM.andThen hM.poll fun r => ?_
    cases r with
    | notReady => exact hM.pure _
    | ready => exact hM.andThen (hM.append x) fun _ => ih (part + 1)

include hs

theorem runTemplate (hrun : M.Of run) : M.Of (runTemplate env run) := by
  intro t frames params held
  cases t with
  | host i =>
    rw [ResumableTemplates.runTemplate]
    cases env.library.hosts[i]? with
    | none => exact hM.stop _
    | some h =>
      cases h with
      | probe name => exact hM.andThen (hM.probe name params) fun _ => hM.pure _
      | parts name texts => exact runParts hM name _ _
  | compiled unit name =>
    rw [ResumableTemplates.runTemplate]
    cases hc : env.library.compiled? unit name with
    | none => exact hM.stop _
    | some c => exact runCompiled hM hs hrun hc frames params held

theorem runWithin (levels : Nat) : M.Of (runWithin env levels) := by
  induction levels with
  | zero => exact runTemplate hM hs fun _ _ _ _ => hM.stop _
  | succ levels ih => exact runTemplate hM hs ih

theorem outermost (t : TemplateRef) (frames : Option Frames) (params : Record) :
    M (Render.outermost env t frames params) := by
  change M ((RenderState.depth <$> get) >>= fun d =>
    ResumableTemplates.runWithin env (env.maxDepth - d) t frames params (fun r => r = t) >>= _)
  refine hM.andThen hM.depth fun d => hM.andThen (runWithin hM hs _ _ _ _ _) fun o => ?_
  cases o with
  | done => exact hM.pure _
  | paused f why => exact hM.suspend f why

theorem start (t : TemplateRef) (params : Record) : M (Render.start env t params) :=
  hM.andThen hM.takeHold fun _ => outermost hM hs t none params

theorem resume (t : TemplateRef) (params : Record) (o : Outcome) :
    M (Render.resume env t params o) := by
  cases o with
  | done => exact hM.stop _
  | suspended st =>
    rw [Render.resume]
    have hrest : M (do Render.outermost env t (some (← Render.takeSaved st.cell)) params) :=
      hM.andThen (hM.takeSaved _) fun f => outermost hM hs t (some f) params
    by_cases hname : st.template = env.library.nameOf t
    · simp only [hname, ne_eq, not_true_eq_false, if_false]
      exact hrest
    · simp only [hname, ne_eq, not_false_eq_true, if_true]
      exact hM.andThen (hM.stop _) fun _ => hrest

theorem finishing (t : TemplateRef) (params : Record) (fuel paused : Nat) (o : Outcome) :
    M (Render.finish env t params fuel paused o) := by
  induction fuel generalizing paused o with
  | zero => cases o <;> exact hM.pure _
  | succ fuel ih =>
    cases o with
    | done => exact hM.pure _
    | suspended st => exact hM.andThen (resume hM hs t params _) fun o => ih (paused + 1) o

end Manner

end ResumableTemplates
