import ResumableTemplates.Proofs.Render.Termination

/-! The depth of calls. At every instant it is as many levels below where a call has begun as templates
are called, and it is back there in the end, however that comes about. -/
namespace ResumableTemplates

def Instant.Overreaches (env : Env) (callee : TemplateRef) (m : Instant) : Prop :=
  ∃ p a op, m.doing = .op p a ∧ a.template.procedure.ops[p]? = some op ∧
    a.Overreaches env p op m.state callee

/-- Holds of an instant at which a call of a template of a name is too deep by a limit. -/
def Instant.Exceeds (env : Env) (name : String) (limit : Nat) (m : Instant) : Prop :=
  limit = env.maxDepth ∧ ∃ callee, m.Overreaches env callee ∧ env.library.nameOf callee = name

theorem runTemplate_host (env : Env) (run : Runner) (i : Nat) (frames : Option Frames)
    (params : Record) (held : TemplateRef → Bool) (s : RenderState) :
    let y := runTemplate env run (.host i) frames params held s
    y.2.depth = s.depth ∧
      (∀ name limit, y.1 ≠ .error (.failure (.callDepthExceeded name limit))) ∧
      ∀ f why, y.1 = .ok (.paused f why) → f.calls = [] := by
  have parts : ∀ (name : String) (texts : List String) (part : Nat) (u : RenderState),
      (runParts name part texts u).2.depth = u.depth ∧
        (∀ callee limit, (runParts name part texts u).1 ≠
          .error (.failure (.callDepthExceeded callee limit))) ∧
        ∀ f why, (runParts name part texts u).1 = .ok (.paused f why) → f.calls = [] := by
    intro name texts
    induction texts with
    | nil => exact fun part u => ⟨rfl, fun _ _ h => (by cases h), fun _ _ h => (by cases h)⟩
    | cons x xs ih =>
      intro part u
      obtain ⟨r, v, hpoll⟩ := Render.poll_ok u
      have hv := (Render.poll_leaves hpoll).2
      simp only [runParts, Render.bind_apply, hpoll]
      cases r with
      | notReady =>
        exact ⟨hv, fun _ _ h => (by cases h), fun _ _ h => by cases h; rfl⟩
      | ready =>
        rcases happend : Render.append x v with ⟨e | r, w⟩ <;>
          have hw := (Render.append_leaves happend).2.trans hv <;>
          simp only [Render.bind_apply, happend]
        · obtain ⟨e, rfl⟩ := Render.append_error happend
          exact ⟨hw, fun _ _ h => (by cases h), fun _ _ h => (by cases h)⟩
        · obtain ⟨hdepth, hrest⟩ := ih (part + 1) w
          exact ⟨hdepth.trans hw, hrest⟩
  dsimp only
  rw [runTemplate]
  cases env.library.hosts[i]? with
  | none => exact ⟨rfl, fun _ _ h => (by cases h), fun _ _ h => (by cases h)⟩
  | some h =>
    cases h with
    | probe name => exact ⟨rfl, fun _ _ h => (by cases h), fun _ _ h => (by cases h)⟩
    | parts name texts => exact parts name _ _ s

namespace Evaluated

theorem fillParams (injected : Record) (bs : List ParamBinding) (a : Activation) :
    Evaluated (a.fillParams injected bs) := by
  induction bs generalizing a with
  | nil => exact ok a
  | cons b bs ih => exact (set a b.slot _).bind ih

theorem fillState (bs : List StateBinding) (a : Activation) : Evaluated (a.fillState bs) := by
  induction bs generalizing a with
  | nil => exact ok a
  | cons b bs ih => exact (set a b.slot _).bind ih

theorem putBack (ls : List (Nat × Local)) (a : Activation) : Evaluated (a.putBack ls) := by
  induction ls generalizing a with
  | nil => exact ok a
  | cons l ls ih => exact (set a l.1 l.2).bind ih

theorem restore (f : Frames) (a : Activation) : Evaluated (a.restore f) := by
  intro e h
  by_cases hn : f.outer.template = a.template.name
  case neg =>
    simp only [Activation.restore, ne_eq, hn, not_false_eq_true, if_true] at h
    exact contradiction a _ e h
  cases he : a.template.procedure.points[f.outer.point]? with
  | none =>
    simp only [Activation.restore, ne_eq, hn, not_true_eq_false, if_false, he] at h
    exact contradiction a _ e h
  | some point =>
    by_cases hl : point.live.length = f.outer.locals.length
    case neg =>
      simp only [Activation.restore, ne_eq, hn, not_true_eq_false, if_false, he, hl, not_false_eq_true,
        if_true] at h
      exact contradiction a _ e h
    simp only [Activation.restore, ne_eq, hn, he, hl, not_true_eq_false, if_false] at h
    exact (putBack _ a).bind (fun _ => ok _) e h

theorem prepared (injected : Record) (unit : Nat) (t : CompiledTemplate) (frames : Option Frames)
    (params : Record) (held : TemplateRef → Bool) :
    Evaluated (Activation.prepared injected unit t frames params held) := by
  refine ((fillParams _ _ _).bind fun b => fillState _ b).bind fun a => ?_
  cases frames with
  | none => exact ok _
  | some f => exact restore f a

theorem save (point : Nat) (why : PauseReason) (calls : List PendingCall) (a : Activation) :
    Evaluated (a.save point why calls) := by
  unfold Activation.save
  split
  · exact contradiction a _
  · exact ok _

end Evaluated

namespace Executes

variable {env : Env} {n : Nat} {j : Task} {s : RenderState} {instants : List Instant}
  {y : Except Stop FrameOutcome × RenderState}

theorem depth (h : Executes env n j s instants y) : y.2.depth = s.depth := by
  induction h with
  | host => exact (runTemplate_host ..).1
  | missing => rfl
  | unfit => rfl
  | template _ _ _ ih => exact ih
  | done => rfl
  | op run _ _ _ hx _ ih ihrest =>
    have hdepth := Activation.attempt_depth run ih
    rw [hx] at hdepth
    exact ihrest.trans hdepth
  | goto _ ih => exact ih
  | paused => rfl
  | failed => rfl

/-- At an instant calls are as many levels deeper as there are calls under way, and no deeper than they
may be if there are any. -/
theorem instant_depth (h : Executes env n j s instants y) : ∀ m ∈ instants,
    m.state.depth + n = s.depth + m.calls ∧ n ≤ m.calls ∧
      (n < m.calls → m.state.depth ≤ env.maxDepth) := by
  have here : ∀ {k : Nat} {doing : Doing} {u : RenderState}, ∀ m ∈ [Instant.mk k doing u],
      m.state.depth + k = u.depth + m.calls ∧ k ≤ m.calls ∧
        (k < m.calls → m.state.depth ≤ env.maxDepth) := by
    intro k doing u m hm
    obtain rfl := List.mem_singleton.1 hm
    exact ⟨rfl, Nat.le_refl k, fun hlt => absurd hlt (Nat.lt_irrefl k)⟩
  induction h with
  | host => exact here
  | missing => exact here
  | unfit => exact here
  | template _ _ _ ih =>
    intro m hm
    obtain rfl | hm := List.mem_cons.1 hm
    · exact here _ List.mem_cons_self
    · exact ih m hm
  | done => exact fun m hm => (List.not_mem_nil hm).elim
  | @op p o n inside x t rest y a s run _ hcallee hidle hx hrest ih ihrest =>
    intro m hm
    obtain rfl | hm := List.mem_cons.1 hm
    · exact here _ List.mem_cons_self
    obtain hm | hm := List.mem_append.1 hm
    · by_cases hhand : ∃ h, a.HandsOver env p o s h
      · obtain ⟨h, hh⟩ := hhand
        obtain ⟨hdepth, hle, hmax⟩ := ih h hh m hm
        obtain ⟨hbelow, hlt⟩ := hh.depth
        refine ⟨by omega, by omega, fun _ => ?_⟩
        obtain hlt' | heq := Nat.lt_or_eq_of_le hle
        · exact hmax hlt'
        · omega
      · rw [hidle (not_exists.1 hhand)] at hm
        exact (List.not_mem_nil hm).elim
    · have hdepth := Activation.attempt_depth run fun h hh => (hcallee h hh).depth
      rw [hx] at hdepth
      exact hdepth ▸ ihrest m hm
  | goto _ ih => exact ih
  | paused => exact fun m hm => (List.not_mem_nil hm).elim
  | failed => exact fun m hm => (List.not_mem_nil hm).elim

/-- What there is to execute comes to a call that is too deep if it is what comes after one, or if there
is an instant at which such a call is about to be made. -/
theorem exceeds_iff (h : Executes env n j s instants y) (name : String) (limit : Nat) :
    y.1 = .error (.failure (.callDepthExceeded name limit)) ↔
      (∃ op, j = .rest op (.error (.failure (.callDepthExceeded name limit)))) ∨
        ∃ m ∈ instants, m.Exceeds env name limit := by
  have entry : ∀ {k : Nat} {t : TemplateRef} {frames : Option Frames} {params : Record}
      {u : RenderState}, ¬ Instant.Exceeds env name limit ⟨k, .entry t frames params, u⟩ := by
    rintro _ _ _ _ _ ⟨-, _, ⟨_, _, _, h, _⟩, _⟩
    cases h
  have other : ∀ {α : Type} {x : Except RenderError α}, Evaluated x →
      x ≠ .error (.callDepthExceeded name limit) := fun h he => (by cases h _ he)
  induction h with
  | host => simpa [entry] using (runTemplate_host ..).2.1 name limit
  | missing => simp [entry]
  | @unfit unit _ c frames params held e _ _ _ he =>
    have hne := other (Evaluated.prepared env.injected unit c frames params held)
    rw [he] at hne
    simpa [entry] using hne
  | template _ _ _ ih => simpa [entry] using ih
  | done => simp
  | @op p o n inside x t rest y a s run ho hcallee hidle hx hrest ih ihrest =>
    have hhere : Instant.Exceeds env name limit ⟨n, .op p a, s⟩ ↔
        limit = env.maxDepth ∧ ∃ r, a.Overreaches env p o s r ∧ env.library.nameOf r = name := by
      refine and_congr_right fun _ => exists_congr fun r => and_congr_left fun _ => ?_
      exact ⟨fun ⟨_, _, _, hd, ho', hr⟩ => by cases hd; cases ho.symm.trans ho'; exact hr,
        fun hr => ⟨p, a, o, rfl, ho, hr⟩⟩
    have hinside : (∃ h, a.HandsOver env p o s h ∧
        (h.answer run).1 = .error (.failure (.callDepthExceeded name limit))) ↔
          ∃ m ∈ inside, m.Exceeds env name limit := by
      refine ⟨fun ⟨h, hh, he⟩ => ?_, fun ⟨m, hm, hexceeds⟩ => ?_⟩
      · exact ((ih h hh).1 he).resolve_left fun ⟨_, hj⟩ => (by cases hj)
      · by_cases hhand : ∃ h, a.HandsOver env p o s h
        · obtain ⟨h, hh⟩ := hhand
          exact ⟨h, hh, (ih h hh).2 (.inr ⟨m, hm, hexceeds⟩)⟩
        · rw [hidle (not_exists.1 hhand)] at hm
          exact (List.not_mem_nil hm).elim
    have hattempt : (a.attempt env run p o s).1 = _ ↔ _ := Activation.attempt_exceeds run name limit
    rw [hx, ← hhere, hinside] at hattempt
    refine ihrest.trans ?_
    simp only [Task.rest.injEq, exists_eq_left', hattempt, reduceCtorEq, exists_false, false_or,
      List.mem_cons, List.mem_append, or_and_right, exists_or, exists_eq_left, or_assoc]
  | goto _ ih => simpa using ih
  | @paused _ op why b calls s =>
    have := other (Evaluated.save (op.point?.getD 0) why calls b)
    cases hsave : b.save (op.point?.getD 0) why calls <;> simp_all
  | failed => simp

end Executes

/-- Holds of what is saved of a template that was stopped in a call, together with the text so far of the
buffer that its callee writes to. -/
inductive SavedActivation.InCall (t : CompiledTemplate) : SavedActivation → Prop
  | mk {point : Nat} (p : Nat) (f : Nat → Local) : t.procedure.points[point]? = some ⟨p, live⟩ →
      (∀ n ∈ live, n < t.procedure.layout.size) →
      t.procedure.ops[p]? = some (.call point out callee base args) →
      (∀ slot, out = .buffer slot → slot ∈ live ∧ ∃ text, f slot = .buffer text) →
      InCall t ⟨t.name, point, live.map f⟩

/-- Holds of a saved render in which each template but the last was stopped in a call. -/
inductive Frames.Nested (lib : Library) : TemplateRef → SavedActivation → List PendingCall → Prop
  | last : Nested lib t s []
  | call : lib.compiled? unit name = some t → s.InCall t → Nested lib c.callee c.saved cs →
      Nested lib (.compiled unit name) s (c :: cs)

theorem Frames.Nested.name {lib lib' : Library} {t : TemplateRef} {s : SavedActivation}
    {calls : List PendingCall} (h : Nested lib t s calls) (hne : calls ≠ []) :
    s.template = lib'.nameOf t := by
  cases h with
  | last => exact absurd rfl hne
  | call hc hcall =>
    cases hcall
    exact Library.name_of_compiled? hc

namespace Activation

variable {lib : Library} {a b : Activation} {env : Env} {run : Runner} {p : Nat} {op : Op}
  {s : RenderState}

structure Shaped (lib : Library) (a : Activation) : Prop where
  isOf : a.IsOf lib
  size : a.locals.size = a.template.procedure.layout.size

theorem Shaped.changed {P : Value → Prop} {slots : List Nat} (ha : a.Shaped lib)
    (h : a.Changed P slots b) : b.Shaped lib where
  isOf := by rw [IsOf, h.unit, h.template]; exact ha.isOf
  size := by rw [h.size, h.template]; exact ha.size

theorem Shaped.prepared {unit : Nat} {name : String} {c : CompiledTemplate} {frames : Option Frames}
    {injected params : Record} {held : TemplateRef → Bool} (hc : lib.compiled? unit name = some c)
    (h : Activation.prepared injected unit c frames params held = .ok (p, a)) :
    a.Shaped lib ∧ a.unit = unit ∧ a.template = c := by
  have hof := IsOf.prepared hc h
  obtain ⟨b, hb, h⟩ := Except.bind_ok_iff.1 h
  obtain ⟨hu, ht, hsize, -⟩ := start_eq hb
  cases frames with
  | none =>
    cases h
    exact ⟨⟨hof, ht ▸ hsize⟩, hu, ht⟩
  | some f =>
    obtain ⟨hu', ht', hsize', -⟩ := restore_waiting h
    exact ⟨⟨hof, by rw [hsize', ht', ht, hsize]⟩, hu'.trans hu, ht'.trans ht⟩

theorem save_calls {point : Nat} {why why' : PauseReason} {calls : List PendingCall} {f : Frames}
    (h : a.save point why calls = .ok (.paused f why')) : f.calls = calls := by
  unfold save at h
  split at h <;> cases h
  rfl

theorem Shaped.inCall (hlib : env.library.IsCompiled) (ha : a.Shaped env.library)
    (ho : a.template.procedure.ops[p]? = some op) {out : Output} {r : TemplateRef}
    {frames : Option Frames} {params : Record} {q : Nat} {t : RenderState}
    (hplan : a.plan env p op s = (.ok (.call out r frames params q b), t)) (hopen : b.HasOutput out)
    (u : RenderState) {why : PauseReason} {calls : List PendingCall} {o : FrameOutcome}
    (hsave : (b.after u out).save (op.point?.getD 0) why calls = .ok o) :
    ∃ saved, o = .paused ⟨saved, calls⟩ why ∧ saved.InCall a.template := by
  obtain ⟨cert⟩ := hlib.certificate
  have hflow := cert.flow _ _ _ ha.isOf
  have hch := plan_changes hplan
  have hab := called_changed hch u
  obtain ⟨-, ⟨point, callee, base, args, rfl⟩, -⟩ := hch.call _ _ _ _ _ _ rfl
  obtain ⟨live, hpoint, hbounds, hcovers⟩ := hflow.points p _ point ho rfl
  simp only [save, Op.point?, Option.getD_some, hab.template, hpoint] at hsave
  cases hsave
  refine ⟨_, rfl, .mk p _ hpoint (fun n hn => (hbounds n hn).2) ho ?_⟩
  rintro slot rfl
  have htyped : cert.notes a.unit a.template.name p slot = some .buffer :=
    (hflow.safe p _ ho).1
  refine ⟨(hcovers slot _ htyped).resolve_left fun hlt => ?_, u.capture.getD "", ?_⟩
  · cases hflow.values p slot _ htyped hlt
  · obtain ⟨text, htext⟩ := hopen slot rfl
    have hlt : slot < b.locals.size := lt_size_of_buffer htext
    simp [after, hlt]

end Activation

theorem SavedActivation.InCall.prepared {lib : Library} (hlib : lib.IsCompiled) {unit : Nat}
    {name : String} {t : CompiledTemplate} (hc : lib.compiled? unit name = some t)
    {saved : SavedActivation} (h : saved.InCall t) (w : PendingCall) (rest : List PendingCall)
    (injected params : Record) (held : TemplateRef → Bool) : ∃ p op out b c,
      Activation.prepared injected unit t (some ⟨saved, w :: rest⟩) params held = .ok (p, b) ∧
        b.template.procedure.ops[p]? = some op ∧ c.HasOutput out ∧ ∀ env s, b.plan env p op s =
          (.ok (.call out w.callee (some ⟨w.saved, rest⟩) w.params (p + 1) c), s) := by
  obtain ⟨cert⟩ := hlib.certificate
  obtain ⟨a, ha, -⟩ := Activation.start_ok (cert.flow _ _ _ hc) injected params unit held
  obtain ⟨-, ht, hsize, -⟩ := Activation.start_eq ha
  cases h with
  | @mk live out callee base args point p f hpoint hbounds ho hbuffer =>
    obtain ⟨b, hb, -, hbt, -, -, hwaiting, hlocals⟩ := Activation.restore_eq (a := a) f (w :: rest)
      (congrArg (·.name) ht) (ht ▸ hpoint) (fun n hn => hsize ▸ hbounds n hn)
    refine ⟨p, _, out, b, { b with waiting := none }, ?_, by rw [hbt, ht]; exact ho,
      fun slot hslot => ?_, fun env s => ?_⟩
    · rw [Activation.prepared, ha]
      exact hb
    · obtain ⟨hlive, text, htext⟩ := hbuffer slot hslot
      refine ⟨text, ?_⟩
      simp only [Activation.buffer, hlocals, hlive, if_true, htext]
    · have hat : b.waitingAt? point = some (w, rest) := by
        simp only [Activation.waitingAt?, hwaiting, List.isEmpty_cons, Bool.false_eq_true, if_false,
          if_true]
      rw [Activation.plan, Activation.planCall, hat]
      rfl

inductive Task.Of (lib : Library) : TemplateRef → Task → Prop
  | template : Of lib t (.template t frames params held)
  | ops : a.Shaped lib → Of lib (.compiled a.unit a.template.name) (.ops p a)
  | goto : a.Shaped lib → Of lib (.compiled a.unit a.template.name) (.rest op (.ok (.goto p a)))

namespace Executes

variable {env : Env} {n : Nat} {j : Task} {s : RenderState} {instants : List Instant}
  {y : Except Stop FrameOutcome × RenderState}

theorem entry_mem {t : TemplateRef} {frames : Option Frames} {params : Record}
    {held : TemplateRef → Bool} (h : Executes env n (.template t frames params held) s instants y) :
    ⟨n, .entry t frames params, s⟩ ∈ instants := by
  cases h <;> exact List.mem_cons_self

theorem leaves (hlib : env.library.IsCompiled) (h : Executes env n j s instants y) {t : TemplateRef}
    (hj : j.Of env.library t) {f : Frames} {why : PauseReason} (hy : y.1 = .ok (.paused f why)) :
    Frames.Nested env.library t f.outer f.calls ∧ ∀ before w rest, f.calls = before ++ w :: rest →
      ∃ m ∈ instants, m.calls = n + before.length + 1 ∧
        ∃ frames, m.doing = .entry w.callee frames w.params := by
  -- Only an op that is stopped in a call leaves calls; the one it is stopped in is the outermost.
  induction h generalizing t f why with
  | host =>
    cases hj
    rw [(runTemplate_host ..).2.2 f why hy]
    exact ⟨.last, fun before w rest h => (by simp at h)⟩
  | missing => cases hy
  | unfit => cases hy
  | @template unit name c frames params held p a n s instants y hc ha _ ih =>
    cases hj
    obtain ⟨hshaped, hu, ht⟩ := Activation.Shaped.prepared hc ha
    have hof : Task.Of env.library (.compiled unit name) (.ops p a) := by
      have hname : a.template.name = name := (congrArg (·.name) ht).trans (Library.name_of_compiled? hc)
      exact hu ▸ hname ▸ .ops hshaped
    obtain ⟨hnested, hentered⟩ := ih hof hy
    refine ⟨hnested, fun before w rest h => ?_⟩
    obtain ⟨m, hm, hentry⟩ := hentered before w rest h
    exact ⟨m, List.mem_cons_of_mem _ hm, hentry⟩
  | done => cases hy
  | @op p o n inside x u rest y a s run ho hcallee hidle hx hrest ih ihrest =>
    cases hj with
    | ops ha =>
    cases hrest with
    | failed => cases hy
    | goto hops =>
      obtain ⟨act, v, hplan, rfl, hab, -⟩ := Activation.attempt_goto hx
      have hch := hab _ (Activation.plan_changes hplan)
      have hof : Task.Of env.library _ (.rest o (.ok (.goto act.position _))) := .goto (ha.changed hch)
      rw [hch.unit, hch.template] at hof
      obtain ⟨hnested, hentered⟩ := ihrest hof hy
      refine ⟨hnested, fun before w rest h => ?_⟩
      obtain ⟨m, hm, hentry⟩ := hentered before w rest h
      exact ⟨m, List.mem_cons_of_mem _ (List.mem_append_right _ hm), hentry⟩
    | @paused _ _ why' b calls _ =>
      have hsave : b.save (o.point?.getD 0) why' calls = .ok (.paused f why) := by
        cases hs : b.save (o.point?.getD 0) why' calls <;> rw [hs] at hy <;> cases hy
        rfl
      obtain rfl | ⟨g, f', v, hh, hanswer, rfl, out, q, c, _, hplan, hopen, rfl⟩ :=
        Activation.attempt_paused hx
      · rw [Activation.save_calls hsave]
        exact ⟨.last, fun before w rest h => (by simp at h)⟩
      · obtain ⟨saved, hf, hcall⟩ := Activation.Shaped.inCall hlib ha ho hplan hopen v hsave
        cases hf
        obtain ⟨hnested, hentered⟩ := ih g hh .template (congrArg Prod.fst hanswer)
        refine ⟨.call ha.isOf hcall hnested, fun before w rest h => ?_⟩
        cases before with
        | nil =>
          cases h
          exact ⟨_, List.mem_cons_of_mem _ (List.mem_append_left _ (hcallee g hh).entry_mem), rfl, _,
            rfl⟩
        | cons w' before =>
          obtain ⟨m, hm, hcalls, hentry⟩ := hentered before w rest (List.cons.inj h).2
          refine ⟨m, List.mem_cons_of_mem _ (List.mem_append_left _ hm), ?_, hentry⟩
          rw [hcalls, List.length_cons]
          omega
  | goto _ ih =>
    cases hj with
    | goto ha => exact ih (.ops ha) hy
  | paused => cases hj
  | failed => cases hj

theorem reenters (hlib : env.library.IsCompiled) {t : TemplateRef} {saved : SavedActivation}
    {calls : List PendingCall} (hnested : Frames.Nested env.library t saved calls) {params : Record}
    {held : TemplateRef → Bool}
    (h : Executes env n (.template t (some ⟨saved, calls⟩) params held) s instants y)
    {before : List PendingCall} {w : PendingCall} {rest : List PendingCall}
    (hw : calls = before ++ w :: rest) :
    (s.depth + before.length < env.maxDepth → ∃ m ∈ instants, m.calls = n + before.length + 1 ∧
      m.doing = .entry w.callee (some ⟨w.saved, rest⟩) w.params) ∧
    (s.depth + before.length = env.maxDepth →
      ∃ m ∈ instants, m.Overreaches env w.callee) := by
  -- By induction on the calls that were saved, outermost first, as they are entered in that order.
  induction hnested generalizing n s instants y params held before with
  | last => simp at hw
  | @call unit name c vs saved v hc hcall _ ih =>
    obtain ⟨p, op, out, b, d, hprepared, hop, hopen, hplan⟩ :=
      hcall.prepared hlib hc v vs env.injected params held
    cases h with
    | missing hc' => cases hc.symm.trans hc'
    | unfit hc' he =>
      cases hc.symm.trans hc'
      cases hprepared.symm.trans he
    | template hc' ha hops =>
      cases hc.symm.trans hc'
      cases hprepared.symm.trans ha
      cases hops with
      | done ho => cases hop.symm.trans ho
      | @op _ _ _ inside _ _ rest' _ _ _ run ho hcallee _ _ _ =>
        cases hop.symm.trans ho
        have hhere := hplan env s
        cases before with
        | nil =>
          cases hw
          refine ⟨fun hlt => ?_, fun heq => ?_⟩
          · have hmem := (hcallee _ (.call hhere hlt hopen)).entry_mem
            exact ⟨_, List.mem_cons_of_mem _ (List.mem_cons_of_mem _ (List.mem_append_left _ hmem)), rfl,
              rfl⟩
          · exact ⟨_, List.mem_cons_of_mem _ List.mem_cons_self, p, b, op, rfl, hop,
              .call hhere (Nat.le_of_eq heq.symm)⟩
        | cons v' before =>
          cases hw
          have hhand := fun hlt => Activation.HandsOver.call hhere hlt hopen
          have hcalls : s.depth + (v :: before).length = s.depth + 1 + before.length := by
            rw [List.length_cons]
            omega
          rw [hcalls]
          refine ⟨fun hlt => ?_, fun heq => ?_⟩
          · have hand := hhand (by omega)
            obtain ⟨m, hm, hcalls, hentry⟩ := (ih (hcallee _ hand) rfl).1
              (by rw [hand.depth.1]; exact hlt)
            exact ⟨m, List.mem_cons_of_mem _ (List.mem_cons_of_mem _ (List.mem_append_left _ hm)),
              by rw [hcalls, List.length_cons]; omega, hentry⟩
          · have hand := hhand (by omega)
            obtain ⟨m, hm, hover⟩ := (ih (hcallee _ hand) rfl).2 (by rw [hand.depth.1]; exact heq)
            exact ⟨m, List.mem_cons_of_mem _ (List.mem_cons_of_mem _ (List.mem_append_left _ hm)), hover⟩

end Executes

namespace FrameOutcome

variable {y : Except Stop FrameOutcome × RenderState}

theorem returned_depth (y : Except Stop FrameOutcome × RenderState) :
    (returned y).2.depth = y.2.depth := by
  obtain ⟨_ | _ | _, _⟩ := y <;> rfl

theorem returned_error {e : Stop} : (returned y).1 = .error e ↔ y.1 = .error e := by
  obtain ⟨_ | _ | _, _⟩ := y <;> simp [returned, Render.suspend]

theorem returned_suspended {st : ResumeState} {f : Frames}
    (h : (returned y).1 = .ok (.suspended st)) (hf : (returned y).2.cells[st.cell]? = some (some f)) :
    st.template = f.outer.template ∧ ∃ why, y.1 = .ok (.paused f why) := by
  obtain ⟨_ | _ | ⟨g, why⟩, u⟩ := y
  · cases h
  · cases h
  · cases h
    simp only [returned, Render.suspend, Render.modifyGet_apply, Array.getElem?_push_size] at hf
    cases hf
    exact ⟨rfl, why, rfl⟩

end FrameOutcome

namespace Call

variable {c d : Call} {s u : RenderState} {st : ResumeState} {f : Frames}

theorem admitted_depth (c : Call) (s : RenderState) : (c.admitted s).2.depth = s.depth ∧
    ∀ name limit, (c.admitted s).1 ≠ .error (.failure (.callDepthExceeded name limit)) := by
  unfold admitted
  cases c.source with
  | none => exact ⟨rfl, fun _ _ h => (by cases h)⟩
  | some o =>
    cases o with
    | done => exact ⟨rfl, fun _ _ h => (by cases h)⟩
    | suspended st =>
      by_cases hname : st.template = c.env.library.nameOf c.template
      · simp only [hname, ne_eq, not_true_eq_false, if_false, Render.map_apply, Render.takeSaved_apply]
        cases (s.cells[st.cell]?).join <;> exact ⟨rfl, fun _ _ h => (by cases h)⟩
      · simp only [hname, ne_eq, not_false_eq_true, if_true, Render.bind_apply]
        exact ⟨rfl, fun _ _ h => (by cases h)⟩

theorem admitted_saved (hsource : c.source = some (.suspended st))
    (hname : st.template = c.env.library.nameOf c.template)
    (hf : s.cells[st.cell]? = some (some f)) : c.admitted s =
      (.ok (some f), { s with cells := s.cells.setIfInBounds st.cell none }) := by
  simp [admitted, hsource, hname, Render.takeSaved_apply, Render.map_apply, hf]

/-- Holds of a call that comes to a result if calls are exactly as deep as they are nested at each instant,
and as deep in the end as when it was made. -/
structure KeepsDepth (c : Call) (s : RenderState) (instants : List Instant)
    (y : Except Stop Outcome × RenderState) : Prop where
  released : y.2.depth = s.depth
  exact : ∀ m ∈ instants, m.state.depth = s.depth + m.calls
  limited : s.depth ≤ c.env.maxDepth → ∀ m ∈ instants, m.state.depth ≤ c.env.maxDepth
  exceeded : ∀ name limit, y.1 = .error (.failure (.callDepthExceeded name limit)) ↔
    ∃ m ∈ instants, m.Exceeds c.env name limit

theorem Performs.keepsDepth {instants : List Instant} {y : Except Stop Outcome × RenderState}
    (h : c.Performs s instants y) : c.KeepsDepth s instants y := by
  obtain ⟨hdepth, hne⟩ := c.admitted_depth s
  cases h with
  | refused ha =>
    rw [ha] at hdepth hne
    exact ⟨hdepth, fun m hm => (List.not_mem_nil hm).elim, fun _ m hm => (List.not_mem_nil hm).elim,
      fun name limit => by simpa using hne name limit⟩
  | @executed t frames _ y ha hexec =>
    rw [ha] at hdepth
    dsimp only at hdepth
    have hinstant := hexec.instant_depth
    simp only [hdepth, Nat.add_zero] at hinstant
    refine ⟨?_, fun m hm => (hinstant m hm).1, fun hle m hm => ?_, fun name limit => ?_⟩
    · exact (FrameOutcome.returned_depth y).trans (hexec.depth.trans hdepth)
    · obtain ⟨heq, -, hmax⟩ := hinstant m hm
      obtain hzero | hpos := Nat.eq_zero_or_pos m.calls
      · rw [heq, hzero]
        exact hle
      · exact hmax hpos
    · rw [FrameOutcome.returned_error, hexec.exceeds_iff name limit]
      simp [Call.task]

theorem Performs.leaves (hlib : c.env.library.IsCompiled) {instants : List Instant}
    {y : Except Stop Outcome × RenderState} (h : c.Performs s instants y)
    (hst : y.1 = .ok (.suspended st)) (hf : y.2.cells[st.cell]? = some (some f)) :
    st.template = f.outer.template ∧
      Frames.Nested c.env.library c.template f.outer f.calls ∧ ∀ outside w inside,
        f.calls = outside ++ w :: inside → ∃ m ∈ instants, m.calls = outside.length + 1 ∧
          ∃ frames, m.doing = .entry w.callee frames w.params := by
  cases h with
  | refused => cases hst
  | executed ha hexec =>
    obtain ⟨hname, why, hpaused⟩ := FrameOutcome.returned_suspended hst hf
    obtain ⟨hnested, hentered⟩ := hexec.leaves hlib .template hpaused
    refine ⟨hname, hnested, fun outside w inside hw => ?_⟩
    obtain ⟨m, hm, hcalls, hentry⟩ := hentered outside w inside hw
    exact ⟨m, hm, hcalls.trans (by omega), hentry⟩

theorem Performs.reenters (hlib : d.env.library.IsCompiled) {instants : List Instant}
    {y : Except Stop Outcome × RenderState} (h : d.Performs u instants y)
    (hsource : d.source = some (.suspended st)) (hname : st.template = f.outer.template)
    (hsaved : u.cells[st.cell]? = some (some f))
    (hnested : Frames.Nested d.env.library d.template f.outer f.calls) {outside : List PendingCall}
    {w : PendingCall} {inside : List PendingCall} (hw : f.calls = outside ++ w :: inside) :
    (u.depth + outside.length < d.env.maxDepth → ∃ m ∈ instants, m.calls = outside.length + 1 ∧
      m.doing = .entry w.callee (some ⟨w.saved, inside⟩) w.params) ∧
    (u.depth + outside.length = d.env.maxDepth → y.1 =
      .error (.failure (.callDepthExceeded (d.env.library.nameOf w.callee) d.env.maxDepth))) := by
  have hne : f.calls ≠ [] := by simp [hw]
  have hadmitted := admitted_saved hsource (hname.trans (hnested.name hne)) hsaved
  have hexceeded := h.keepsDepth.exceeded
  cases h with
  | refused ha => cases hadmitted.symm.trans ha
  | executed ha hexec =>
    cases hadmitted.symm.trans ha
    obtain ⟨henters, hover⟩ := hexec.reenters hlib hnested hw
    refine ⟨fun hlt => ?_, fun heq => ?_⟩
    · obtain ⟨m, hm, hcalls, hentry⟩ := henters hlt
      exact ⟨m, hm, hcalls.trans (by omega), hentry⟩
    · obtain ⟨m, hm, hm'⟩ := hover heq
      exact (hexceeded _ _).2 ⟨m, hm, rfl, w.callee, hm', rfl⟩

/-- Holds of a resume from what a call has left, by the template that has left it. -/
structure ResumedBy (c : Call) (st : ResumeState) (f : Frames) (d : Call) (u : RenderState) : Prop where
  template : d.template = c.template
  library : d.env.library = c.env.library
  source : d.source = some (.suspended st)
  saved : u.cells[st.cell]? = some (some f)

/-- Holds of a call that is under way inside others if a resume enters it again as deep as it was entered
before, unless that is too deep there. -/
structure Reentered (s : RenderState) (instants : List Instant) (d : Call) (u : RenderState)
    (later : List Instant) (outside : Nat) (w : PendingCall) (inside : List PendingCall) : Prop where
  before : ∃ m ∈ instants, m.state.depth = s.depth + outside + 1 ∧
    ∃ frames, m.doing = .entry w.callee frames w.params
  again : u.depth + outside < d.env.maxDepth → ∃ m ∈ later, m.state.depth = u.depth + outside + 1 ∧
    m.doing = .entry w.callee (some ⟨w.saved, inside⟩) w.params
  exceeded : u.depth + outside = d.env.maxDepth → (d.run u).1 =
    .error (.failure (.callDepthExceeded (d.env.library.nameOf w.callee) d.env.maxDepth))

/-- Calls are exactly as deep as they are nested, at each instant of each render and of each resume, and
are left again whatever comes of it; a call is refused for its depth just where the limit is reached. A
resume enters the calls that were under way again, as deep as they were. -/
theorem depth_exact (hlib : c.env.library.IsCompiled) (s : RenderState) :
    ∃ instants, c.Performs s instants (c.run s) ∧ c.KeepsDepth s instants (c.run s) ∧
      ∀ st f, (c.run s).1 = .ok (.suspended st) → (c.run s).2.cells[st.cell]? = some (some f) →
        ∀ d u, c.ResumedBy st f d u → ∃ later, d.Performs u later (d.run u) ∧
          ∀ outside w inside, f.calls = outside ++ w :: inside →
            Reentered s instants d u later outside.length w inside := by
  obtain ⟨instants, h⟩ := exists_performs hlib s
  refine ⟨instants, h, h.keepsDepth, fun st f hst hf d u hd => ?_⟩
  obtain ⟨hname, hnested, hentered⟩ := h.leaves hlib hst hf
  rw [← hd.library] at hlib
  rw [← hd.library, ← hd.template] at hnested
  obtain ⟨later, h'⟩ := exists_performs hlib u
  refine ⟨later, h', fun outside w inside hw => ?_⟩
  obtain ⟨henters, hover⟩ := h'.reenters hlib hd.source hname hd.saved hnested hw
  refine ⟨?_, fun hlt => ?_, hover⟩
  · obtain ⟨m, hm, hcalls, hentry⟩ := hentered outside w inside hw
    exact ⟨m, hm, by rw [h.keepsDepth.exact m hm, hcalls, Nat.add_assoc], hentry⟩
  · obtain ⟨m, hm, hcalls, hentry⟩ := henters hlt
    exact ⟨m, hm, by rw [h'.keepsDepth.exact m hm, hcalls, Nat.add_assoc], hentry⟩

/-- A template that calls itself, and pauses in that, is entered again one level deep when it is resumed. -/
theorem depth_exact_echo :
    let echo : TemplateRef := .compiled 0 "echo"
    let call : Option Outcome → Call := (⟨.plain .echo 2, echo, [], ·⟩)
    let s := RenderState.initial (.throttled (.of [1]))
    let saved : ResumeState := ⟨"echo", .sinkNotReady, 2, 0⟩
    let resume := call (some (.suspended saved))
    let paused := (call none).run s
    (call none).env.library.IsCompiled ∧ paused.1 = .ok (.suspended saved) ∧
      ∃ later, resume.Performs paused.2 later (resume.run paused.2) ∧
        ∃ m ∈ later, m.state.depth = 1 ∧ m.doing = .entry echo (some ⟨⟨"echo", 0, []⟩, []⟩) [] := by
  intro echo call s saved resume paused
  have hpaused : paused.1 = .ok (.suspended saved) := rfl
  have hcell : paused.2.cells[saved.cell]? =
      some (some ⟨⟨"echo", 1, []⟩, [⟨echo, [], ⟨"echo", 0, []⟩⟩]⟩) := rfl
  obtain ⟨instants, -, -, hresumed⟩ := depth_exact (c := call none) Library.echo_isCompiled s
  obtain ⟨later, hlater, hagain⟩ := hresumed saved _ hpaused hcell resume paused.2 ⟨rfl, rfl, rfl, hcell⟩
  have hroom : paused.2.depth = 0 := rfl
  obtain ⟨m, hm, hdepth, hentry⟩ := (hagain [] _ [] rfl).again (by rw [hroom]; decide)
  exact ⟨Library.echo_isCompiled, hpaused, later, hlater, m, hm, hdepth.trans (by rw [hroom]; rfl),
    hentry⟩

end Call

end ResumableTemplates
