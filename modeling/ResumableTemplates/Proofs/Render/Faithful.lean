import ResumableTemplates.Proofs.Render.Writing

/-! Runs are faithful: what an actual run does to be seen is what its work leads to, however often the
sink and the providers put it off. A run that is put off leaves frames behind, and these lead to the rest
of what the run would have led to: no text is lost or written twice, and no callee is looked for twice. -/
namespace ResumableTemplates

theorem Leads.ops_of_alike {lib : Library} {known : Nat → String → UInt64 → Prop}
    (cert : Certificate lib known) {w : World} (hlib : w.library = lib) {d p : Nat}
    {a b : Activation} {deeds : List Deed} {e : End} (h : Leads w d (.ops p a) deeds e)
    (hab : a.Alike False (a.notes cert p) b) (hp : a.Placed cert p) : Leads w d (.ops p b) deeds e := by
  obtain ⟨e', h', he, -⟩ := h.alike (.refl w) hlib (Setting.tolerates_all w) (.ops hab hp) False.elim
  cases he with
  | done => exact h'
  | failed => exact h'
  | on _ _ => exact (h.ne_on).elim

/-- Holds of the errors that a run can end with for no reason of its own, and of the states that it
leaves then: its sink has refused a chunk, or a unit is gone. -/
inductive RenderState.Broken (isAlive : Nat → Bool) (units : Nat → Prop) (u : RenderState) :
    RenderError → Prop
  | refused : u.Refused e → Broken isAlive units u (.sink e)
  | dropped : units unit → isAlive unit = false → e.IsDrop → Broken isAlive units u e

namespace RenderState.Broken

variable {isAlive : Nat → Bool} {units : Nat → Prop} {e : RenderError} {s u : RenderState}

theorem back (h : u.Broken isAlive units e) (out : Output) : (s.back u out).Broken isAlive units e := by
  cases h with
  | refused h => exact .refused h.back
  | dropped hin hdead he => exact .dropped hin hdead he

theorem sink (h : u.Broken isAlive units e) (halive : ∀ unit, units unit → isAlive unit = true) :
    ∃ e', e = .sink e' ∧ u.Refused e' := by
  cases h with
  | refused h => exact ⟨_, rfl, h⟩
  | dropped hin hdead => cases (halive _ hin).symm.trans hdead

end RenderState.Broken

namespace Setting

variable {lib : Library} {known : Nat → String → UInt64 → Prop} (S : Setting lib known) (d : Nat)

/-- What a run reports, whose work does deeds and ends as `goal` says: its end, or frames that
lead to the rest. -/
inductive Reports (t : TemplateRef) (params : Record) (goal : List Deed → End → Prop)
    (s : RenderState) : Except Stop FrameOutcome × RenderState → Prop
  | done : Wrote S.env S.asks deeds s u → goal deeds .done → Reports t params goal s (.ok .done, u)
  | paused : Wrote S.env S.asks deeds s u → Pays S.env S.asks s u → S.Resumes t f →
      (∀ deeds' e, Leads S.world d (.template t (some f) params) deeds' e →
        goal (deeds ++ deeds') e) →
      Reports t params goal s (.ok (.paused f why), u)
  | failed : Wrote S.env S.asks deeds s u → goal deeds (.failed e) →
      Reports t params goal s (.error (.failure e), u)
  | broken : Wrote S.env S.asks deeds s u → u.Broken S.env.isAlive S.units e →
      Reports t params goal s (.error (.failure e), u)

/-- Holds of the runners that report what templates lead to at a depth. -/
def Faithful (run : Runner) : Prop :=
  ∀ t frames params held s, S.env.world s.bindings = S.world → s.depth = d →
    t.Within S.units → Record.All S.Fits params → (∀ f, frames = some f → S.Resumes t f) →
    S.Reports d t params (Leads S.world d (.template t frames params)) s
      (run t frames params held s)

/-- An activation stopped at an op, after deeds: one that is restored to it does the rest. -/
structure Stopped (p : Nat) (a : Activation) (deeds : List Deed) (point : Nat)
    (calls : List PendingCall) (b : Activation) : Prop where
  op : ∃ op, a.template.procedure.ops[p]? = some op ∧ op.point? = some point ∧
    (calls ≠ [] → op.IsCall)
  sound : S.Sound p b
  unit : b.unit = a.unit
  template : b.template = a.template
  params : b.params = a.params
  waiting : b.waiting = none
  keeps : ∀ c ∈ calls, S.Keeps c
  frames : ∀ c cs, calls = c :: cs → FramesSound S.cert c.callee c.saved cs
  goesOn : ∀ c : Activation,
    c.waiting = (if calls.isEmpty then none else some (point, calls)) →
    { c with waiting := none }.Alike False (b.notes S.cert p) b → ∀ deeds' e,
      Leads S.world d (.ops p c) deeds' e → Leads S.world d (.ops p a) (deeds ++ deeds') e

/-- What the attempt of an op comes to: the op is done, or the activation is stopped at it. -/
inductive Attempted (p : Nat) (a : Activation) (s : RenderState) :
    Except Stop Progress × RenderState → Prop
  | goto : Wrote S.env S.asks deeds s u → Leads S.world d (.op p a) deeds (.on q b) →
      S.Sound q b → Attempted p a s (.ok (.goto q b), u)
  | paused : Wrote S.env S.asks deeds s u → Pays S.env S.asks s u →
      S.Stopped d p a deeds point calls b → Attempted p a s (.ok (.paused why b calls), u)
  | failed : Wrote S.env S.asks deeds s u → Leads S.world d (.op p a) deeds (.failed e) →
      Attempted p a s (.error (.failure e), u)
  | broken : Wrote S.env S.asks deeds s u → u.Broken S.env.isAlive S.units e →
      Attempted p a s (.error (.failure e), u)

variable {S d} {p : Nat} {a b : Activation}

theorem library_eq : S.world.library = lib := S.library

theorem Sound.stopped (h : S.Sound p a) {op : Op} {point : Nat}
    (ho : a.template.procedure.ops[p]? = some op) (hpt : op.point? = some point)
    (hw : a.waiting = none) : S.Stopped d p a [] point [] a where
  op := ⟨op, ho, hpt, fun h => absurd rfl h⟩
  sound := h
  unit := rfl
  template := rfl
  params := rfl
  waiting := hw
  keeps := fun _ hc => by cases hc
  frames := fun _ _ he => by cases he
  goesOn := by
    intro c hc hca deeds' e hl
    have hsame : { c with waiting := none } = c := by
      obtain ⟨_, _, _, _, _, _⟩ := c
      cases hc
      rfl
    rw [hsame] at hca
    have hnotes : c.notes S.cert p = a.notes S.cert p := by
      rw [Activation.notes, Activation.notes, hca.unit, hca.template]
    refine hl.ops_of_alike S.cert library_eq (hnotes ▸ hca) ⟨?_, .inl hc⟩
    rw [hca.unit, hca.template]
    exact h.placed.template

theorem Sound.waits (h : S.Sound p a) {op : Op} (ho : a.template.procedure.ops[p]? = some op)
    (hw : a.waiting ≠ none) : ∃ out t frames params q b,
      a.plan S.env p op = pure (.call out t frames params q b) := by
  obtain hn | ⟨point, c, cs, out, callee, base, args, hwait, hop, -⟩ := h.placed.waiting
  · exact absurd hn hw
  · cases ho.symm.trans hop
    have hat := Activation.waitingAt?_of_waiting hwait
    refine ⟨out, c.callee, some ⟨c.saved, cs⟩, c.params, p + 1, { a with waiting := none }, ?_⟩
    simp only [Activation.plan, Activation.planCall, hat]

section Call

variable {point : Nat} {out : Output} {callee : Callee} {base : ParamsBase}
  {args : List (String × ArgSource)} {t : TemplateRef} {frames : Option Frames} {params : Record}
  {q : Nat} {c : Activation} {deeds : List Deed} {f : Frames}

theorem Sound.typed_call (h : S.Sound p a)
    (ho : a.template.procedure.ops[p]? = some (.call point out callee base args))
    (hact : a.action S.world p (.call point out callee base args) =
      .ok (.call out t frames params q b)) :
    b.Alike False (a.notes S.cert p) b ∧ out.Safe (a.notes S.cert p) := by
  obtain ⟨Γ, hmem, hty, hout⟩ := h.typed_next ho hact
  obtain rfl : Γ = a.notes S.cert p := (Prod.mk.inj (List.mem_singleton.1 hmem)).2
  exact ⟨hty, hout _ _ _ _ _ _ rfl⟩

theorem Sound.call_goesOn (h : S.Sound p a)
    (ho : a.template.procedure.ops[p]? = some (.call point out callee base args))
    (hact : a.action S.world p (.call point out callee base args) =
      .ok (.call out t frames params q b))
    (hd : d < S.world.maxDepth)
    (hgo : ∀ deeds' e, Leads S.world (d + 1) (.template t (some f) params) deeds' e →
      Leads S.world (d + 1) (.template t frames params) (deeds ++ deeds') e)
    (hc : b.received deeds out = .ok c) {r : Activation}
    (hr : r.waiting = some (point, ⟨t, params, f.outer⟩ :: f.calls))
    (hrc : { r with waiting := none }.Alike False (a.notes S.cert p) c) {deeds' : List Deed} {e : End}
    (hl : Leads S.world d (.ops p r) deeds' e) :
    Leads S.world d (.ops p a)
      (a.seeks S.world (.call point out callee base args) ++ out.passed deeds ++ deeds') e := by
  obtain ⟨rfl, -, -⟩ := (h.changes ho hact).call _ _ _ _ _ _ rfl
  obtain ⟨-, hout⟩ := h.typed_call ho hact
  obtain ⟨c', hc', hsound, hbc, -⟩ := h.received ho hact deeds
  cases hc.symm.trans hc'
  have hunit : c.unit = a.unit := hbc.unit.trans (h.changes ho hact).changed.unit
  have htemplate : c.template = a.template := hbc.template.trans (h.changes ho hact).changed.template
  have hat : r.waitingAt? point = some (⟨t, params, f.outer⟩, f.calls) := by
    simp only [Activation.waitingAt?, hr]
    simp
  have hact' : r.action S.world p (.call point out callee base args) =
      .ok (.call out t (some f) params (p + 1) { r with waiting := none }) :=
    Activation.action_of_waiting hat
  -- what is restored goes on with the callee it has, and does not look for one
  have hseeks : r.seeks S.world (.call point out callee base args) = [] :=
    r.seeks_of_waiting S.world (by rw [hat]; exact Option.some_ne_none _)
  have hrt : r.template = a.template := hrc.template.trans htemplate
  have hro : r.template.procedure.ops[p]? = some (.call point out callee base args) := hrt ▸ ho
  cases hl with
  | finished hn => rw [hro] at hn; cases hn
  | stopped hl =>
    obtain ⟨hge, -⟩ | ⟨-, ds, rfl, ⟨err, he, hcall⟩ | ⟨c, he, -⟩⟩ := hl.of_call hro hact'
    · omega
    · cases he
      rw [hseeks, List.nil_append, List.append_assoc, ← Output.passed_append]
      exact .stopped (.callFailed ho hact hd (hgo _ _ hcall))
    · cases he
  | next hl hl' =>
    obtain ⟨-, -, he⟩ | ⟨-, ds, rfl, ⟨err, he, -⟩ | ⟨d, he, hrec, hcall⟩⟩ := hl.of_call hro hact'
    · cases he
    · cases he
    · cases he
      obtain ⟨c', hc', hcc', hu', ht', hw'⟩ := Activation.received_alike hrc hout hrec
      rw [hseeks, List.nil_append, ← List.append_assoc, List.append_assoc (a.seeks _ _),
        ← Output.passed_append]
      have hrec' := (Activation.received_append hc _).trans hc'
      refine .next (.called ho hact hd (hgo _ _ hcall) hrec') ?_
      refine hl'.ops_of_alike S.cert library_eq (hcc'.weaken ?_) ⟨?_, .inl hw'⟩
      · rw [Activation.notes, hu', ht', hrc.unit, hrc.template, hunit, htemplate]
        exact h.placed.flow.flows _ _ ho _ _ List.mem_cons_self
      · rw [hu', ht', hrc.unit, hrc.template]
        exact hsound.placed.template

theorem Sound.stopped_call (h : S.Sound p a) {op : Op}
    (ho : a.template.procedure.ops[p]? = some op)
    (hact : a.action S.world p op = .ok (.call out t frames params q b))
    (hd : d < S.world.maxDepth) (hf : S.Resumes t f)
    (hgo : ∀ deeds' e, Leads S.world (d + 1) (.template t (some f) params) deeds' e →
      Leads S.world (d + 1) (.template t frames params) (deeds ++ deeds') e)
    (hc : b.received deeds out = .ok c) :
    ∃ point, S.Stopped d p a (a.seeks S.world op ++ out.passed deeds) point
      (⟨t, params, f.outer⟩ :: f.calls) c := by
  have hch := h.changes ho hact
  obtain ⟨rfl, ⟨point, callee, base, args, rfl⟩, -⟩ := hch.call _ _ _ _ _ _ rfl
  obtain ⟨c', hc', hsound, hbc, hwait⟩ := h.received ho hact deeds
  cases hc.symm.trans hc'
  obtain ⟨hwithin, hparams, -⟩ := h.call ho hact
  obtain ⟨hty, hout⟩ := h.typed_call ho hact
  have hunit : c.unit = a.unit := hbc.unit.trans hch.changed.unit
  have htemplate : c.template = a.template := hbc.template.trans hch.changed.template
  have hnotes : ∀ n, c.notes S.cert n = a.notes S.cert n := fun n => by
    rw [Activation.notes, Activation.notes, hunit, htemplate]
  obtain ⟨c', hc', hcc, -, -, -⟩ := Activation.received_alike hty hout hc
  cases hc.symm.trans hc'
  refine ⟨point, ⟨_, ho, rfl, fun _ => ⟨_, _, _, _, _, rfl⟩⟩, ?_, hunit, htemplate,
    hbc.params.trans hch.changed.params, hwait, ?_, ?_, ?_⟩
  · exact h.changed (hch.changed.trans hbc) (h.placed.flow.writes _ _ ho)
      ⟨hsound.placed.template, .inl hwait⟩ (hnotes p ▸ hcc) hwait
  · intro c hc
    cases hc with
    | head => exact ⟨hwithin, hparams, hf.saves⟩
    | tail _ hc => exact hf.keeps c hc
  · rintro _ _ ⟨⟩
    exact hf.sound
  · intro r hr hrc deeds' e hl
    rw [hnotes] at hrc
    exact h.call_goesOn ho hact hd hgo hc hr hrc hl

end Call

theorem Sound.answers (h : S.Sound p a) {op : Op} (ho : a.template.procedure.ops[p]? = some op) :
    Answers S.env S.asks S.world a.unit (a.seeks S.world op) (a.plan S.env p op)
      (a.action S.world p op) :=
  Activation.plan_answers h.ready fun c hc => ((h.placed.flow.safe _ _ ho).reads c hc).bears _

theorem Sound.perform_call (h : S.Sound p a) {op : Op}
    (ho : a.template.procedure.ops[p]? = some op) {run : Runner}
    (hrun : d < S.world.maxDepth → S.Faithful (d + 1) run) {out : Output} {t : TemplateRef}
    {frames : Option Frames} {params : Record} {q : Nat}
    (hact : a.action S.world p op = .ok (.call out t frames params q b)) {s₀ s : RenderState}
    (hw₀ : Wrote S.env S.asks (a.seeks S.world op) s₀ s) (hs : S.env.world s.bindings = S.world)
    (hd : s.depth = d) :
    S.Attempted d p a s₀ (Activation.perform S.env run (.call out t frames params q b) s) := by
  obtain ⟨hwithin, hparams, hframes⟩ := h.call ho hact
  rw [Activation.perform, Render.bind_apply]
  by_cases hdeep : S.world.maxDepth ≤ d
  · rw [Activation.enter_too_deep (hd ▸ hdeep)]
    exact .failed hw₀ (.tooDeep ho hact hdeep)
  · have hlt : d < S.world.maxDepth := Nat.not_le.1 hdeep
    obtain ⟨b₀, hb₀, -, -⟩ := h.received ho hact []
    obtain ⟨held, henter⟩ :=
      Activation.enter_apply S.env S.asks run t frames params (hd ▸ hlt) hb₀
    have hrep := hrun hlt t frames params held (s.within b out)
      (by cases out <;> exact hs) (by cases out <;> exact congrArg (· + 1) hd)
      hwithin hparams hframes
    generalize hx : run t frames params held (s.within b out) = r at hrep
    cases hrep with
    | done hw hl =>
      obtain ⟨c, hc, hsound, -, -⟩ := h.received ho hact _
      rw [(henter _ _ hx).2 _ _ _ rfl hw hc]
      exact .goto (hw₀.trans (hw.back hb₀)) (.called ho hact hlt hl hc) hsound
    | @paused deeds u f why hw hp hf hgo =>
      obtain ⟨c, hc, -, -, -⟩ := h.received ho hact _
      rw [(henter _ _ hx).2 _ _ _ rfl hw hc]
      obtain ⟨point, hst⟩ := h.stopped_call ho hact hlt hf hgo hc
      have hpay : Pays S.env S.asks s (s.back u out) := by cases out <;> exact hp
      exact .paused (hw₀.trans (hw.back hb₀)) (hw₀.spends.pays hpay) hst
    | failed hw hl =>
      rw [(henter _ _ hx).1 _ rfl]
      exact .failed (hw₀.trans (hw.back hb₀)) (.callFailed ho hact hlt hl)
    | broken hw hbreak =>
      rw [(henter _ _ hx).1 _ rfl]
      exact .broken (hw₀.trans (hw.back hb₀)) (hbreak.back out)

theorem Attempted.attempt_eq {op : Op} {run : Runner} {s : RenderState}
    {r : Except Stop Progress × RenderState} (h : S.Attempted d p a s r)
    (hr : a.step S.env run p op s = r) : a.attempt S.env run p op s = r := by
  rw [Activation.attempt_apply, hr]
  cases h <;> rfl

theorem Sound.put_off (h : S.Sound p a) {op : Op}
    (ho : a.template.procedure.ops[p]? = some op) {run : Runner} {s t : RenderState}
    {why : PauseReason} (hpt : op.point? ≠ none) (hw : a.waiting = none)
    (hstep : a.step S.env run p op s = (.error (.pause why), t))
    (hst : Wrote S.env S.asks [] s t) (hpay : Pays S.env S.asks s t) :
    S.Attempted d p a s (a.attempt S.env run p op s) := by
  rw [Activation.attempt_apply, hstep]
  cases hp : op.point? with
  | none => exact absurd hp hpt
  | some point => exact .paused hst hpay (h.stopped ho hp hw)

theorem Sound.perform_write (h : S.Sound p a) {op : Op}
    (ho : a.template.procedure.ops[p]? = some op) (run : Runner) {text : String} {q : Nat}
    (hact : a.action S.world p op = .ok (.write text q b)) {s t : RenderState}
    (ht : Wrote S.env S.asks (a.seeks S.world op) s t) :
    (∃ why u, Activation.perform S.env run (.write text q b) t = (.error (.pause why), u) ∧
      Wrote S.env S.asks [] s u ∧ Pays S.env S.asks s u) ∨
      S.Attempted d p a s (Activation.perform S.env run (.write text q b) t) := by
  obtain ⟨rfl, -, -, hcall⟩ := (h.changes ho hact).write _ _ _ rfl
  rw [b.seeks_of_not_isCall S.world hcall] at ht
  rw [Activation.perform, Render.bind_apply]
  obtain ⟨u, hu, hawait | ⟨⟨why, hawait⟩, hpay⟩⟩ := Activation.awaitSink_wrote S.env S.asks t
  · rw [hawait]
    simp only [Render.bind_apply]
    obtain ⟨v, hwrite, hv⟩ | ⟨v, e, hwrite, hv, href⟩ :=
      Activation.writeSink_wrote S.env S.asks text u
    · rw [hwrite]
      exact .inr (.goto ((ht.trans hu).trans hv) (.write ho hact) (h.next ho hact))
    · rw [hwrite]
      exact .inr (.broken ((ht.trans hu).trans hv) (.refused href))
  · rw [hawait]
    exact .inl ⟨why, u, rfl, ht.trans hu, ht.spends.pays hpay⟩

/-- Every attempt of an op does what the op leads to, or stops the activation at it. -/
theorem Sound.attempted (h : S.Sound p a) {op : Op}
    (ho : a.template.procedure.ops[p]? = some op) {run : Runner}
    (hrun : d < S.world.maxDepth → S.Faithful (d + 1) run) {s : RenderState}
    (hs : S.env.world s.bindings = S.world) (hd : s.depth = d) :
    S.Attempted d p a s (a.attempt S.env run p op s) := by
  have hstep : a.step S.env run p op s = match a.plan S.env p op s with
      | (.ok act, t) => Activation.perform S.env run act t
      | (.error e, t) => (.error e, t) := by
    rw [Activation.step, Render.bind_apply]
    rcases a.plan S.env p op s with ⟨_ | _, _⟩ <;> rfl
  -- Only a call goes on with what it waits for; all other ops begin with nothing waited for.
  have hwaits : ∀ {r}, a.plan S.env p op s = r →
      (∀ out t frames params q b, r ≠ (.ok (.call out t frames params q b), s)) →
      a.waiting = none := by
    intro r hr hne
    by_cases hw : a.waiting = none
    · exact hw
    · obtain ⟨out, t, frames, params, q, b, hplan⟩ := h.waits ho hw
      rw [hplan] at hr
      exact absurd hr.symm (hne out t frames params q b)
  obtain ⟨t, ht, hplan⟩ | ⟨t, why, ht, hpay, hplan⟩ | ⟨hdead, e, deeds, t, he, ht, hplan⟩ :=
    h.answers ho s hs
  · rw [hplan] at hstep
    cases hact : a.action S.world p op with
    | error e =>
      rw [hact] at hstep
      have hatt : S.Attempted d p a s (.error (.failure e), t) := .failed ht (.failed ho hact)
      exact hatt.attempt_eq hstep ▸ hatt
    | ok act =>
      rw [hact] at hstep
      cases act with
      | goto q b =>
        have hatt : S.Attempted d p a s (.ok (.goto q b), t) :=
          .goto ht (.goto ho hact) (h.next ho hact)
        exact hatt.attempt_eq hstep ▸ hatt
      | call out c frames params q b =>
        have hatt := h.perform_call ho hrun hact ht (ht.world.trans hs) (ht.depth.trans hd)
        exact hatt.attempt_eq hstep ▸ hatt
      | write text q b =>
        obtain ⟨why, u, hperform, hu, hpay⟩ | hatt := h.perform_write ho run hact ht
        · refine h.put_off ho ((h.changes ho hact).write _ _ _ rfl).2.1 (hwaits hplan ?_)
            (hstep.trans hperform) hu hpay
          rw [hact]
          exact fun _ _ _ _ _ _ he => (by cases (Prod.mk.inj he).1)
        · exact hatt.attempt_eq hstep ▸ hatt
  · rw [hplan] at hstep
    refine h.put_off ho ?_ (hwaits hplan fun _ _ _ _ _ _ he => (by cases (Prod.mk.inj he).1)) hstep
      ht hpay
    intro hpt
    rw [Activation.plan_of_point?_eq_none (w := S.world) hpt, Render.liftM_apply] at hplan
    cases hact : a.action S.world p op <;> rw [hact] at hplan <;> cases hplan
  · rw [hplan] at hstep
    have hatt : S.Attempted d p a s (.error (.failure e), t) := .broken ht (.dropped h.unit hdead he)
    exact hatt.attempt_eq hstep ▸ hatt

end Setting

end ResumableTemplates
