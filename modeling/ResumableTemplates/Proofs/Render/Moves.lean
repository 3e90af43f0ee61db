import ResumableTemplates.Proofs.Render.Ensured
import ResumableTemplates.Proofs.Render.Writing

/-! What ops do in any render, whether or not anything is known of its templates: where their calls
lead, what they change, and how a write or a call ends. -/
namespace ResumableTemplates

structure Env.Reaches (env : Env) (reach : TemplateRef → Prop) : Prop where
  own : ∀ unit name other, reach (.compiled unit name) → reach (.compiled unit other)
  template : ∀ name t, env.lookup.template? name = some t → reach t
  delegate : ∀ name variant t, env.lookup.delegate? name variant = some t → reach t

namespace Activation

variable {env : Env} {run : Runner} {a b : Activation} {s t : RenderState} {p : Nat}

theorem plan_changes {op : Op} {act : Action} (h : a.plan env p op s = (.ok act, t)) :
    act.Changes (fun _ => True) op p a :=
  plan_ensures (.trivial (env.world .empty) a) (fun c _ d _ => by cases d <;> exact True.intro) ⟨s, t, h⟩

theorem lookUp_reaches {reach : TemplateRef → Prop} (he : env.Reaches reach) {use : Use}
    {name : String} {r : TemplateRef} (h : lookUp env use name s = (.ok r, t)) : reach r := by
  obtain ⟨-, u, -, h⟩ := Render.bind_eq_ok.1 h
  cases hl : env.lookup.template? name with
  | none => rw [hl] at h; cases h
  | some r' =>
    rw [hl] at h
    cases h
    exact he.template _ _ hl

theorem resolve_reaches {reach : TemplateRef → Prop} (he : env.Reaches reach)
    (ha : reach (.compiled a.unit a.template.name)) {use : Use} {i : Nat} {name : String}
    {r : TemplateRef} (h : a.resolve env use i name s = (.ok r, t)) : reach r := by
  obtain ⟨-, u, -, h⟩ := Render.bind_eq_ok.1 h
  obtain ⟨s', u', -, h⟩ := Render.bind_eq_ok.1 h
  cases hb : s'.bindings.find? (a.site i (.template name)) with
  | some b =>
    cases b <;> simp only [hb] at h
    · split at h
      · cases h
        exact he.own _ _ _ ha
      · cases (Render.liftM_eq_ok.1 h).1
    all_goals exact lookUp_reaches he h
  | none =>
    simp only [hb] at h
    split at h
    · cases (Render.liftM_eq_ok.1 h).1
    · split at h
      · obtain ⟨-, u'', -, h⟩ := Render.bind_eq_ok.1 h
        cases h
        exact he.own _ _ _ ha
      · obtain ⟨-, u'', -, h⟩ := Render.bind_eq_ok.1 h
        exact lookUp_reaches he h

theorem findCallee_reaches {reach : TemplateRef → Prop} (he : env.Reaches reach)
    (ha : reach (.compiled a.unit a.template.name)) {callee : Callee} {r : TemplateRef}
    (h : a.findCallee env callee s = (.ok (some r), t)) : reach r := by
  cases callee with
  | template i name =>
    rw [findCallee, map_eq_pure_bind] at h
    obtain ⟨r', u, hr, h⟩ := Render.bind_eq_ok.1 h
    cases h
    exact resolve_reaches he ha hr
  | delegate name variant allowEmpty =>
    obtain ⟨v, u, -, h⟩ := Render.bind_eq_ok.1 h
    obtain ⟨-, u', -, h⟩ := Render.bind_eq_ok.1 h
    cases hl : env.lookup.delegate? name v with
    | none =>
      rw [hl] at h
      cases allowEmpty <;> cases h
    | some r' =>
      rw [hl] at h
      cases h
      exact he.delegate _ _ _ hl

/-- Holds of an activation that waits for none but templates of a kind, of which its own is. -/
structure Reaches (reach : TemplateRef → Prop) (a : Activation) : Prop where
  own : reach (.compiled a.unit a.template.name)
  waiting : ∀ point calls, a.waiting = some (point, calls) → ∀ c ∈ calls, reach c.callee

theorem Reaches.changed {reach : TemplateRef → Prop} {P : Value → Prop} {slots : List Nat}
    (ha : a.Reaches reach) (h : a.Changed P slots b) : b.Reaches reach where
  own := by rw [h.unit, h.template]; exact ha.own
  waiting point calls hw := by
    obtain hb | hb := h.waiting <;> rw [hb] at hw
    · exact ha.waiting _ _ hw
    · cases hw

theorem plan_reaches {reach : TemplateRef → Prop} (he : env.Reaches reach) (ha : a.Reaches reach)
    {op : Op} {out : Output} {r : TemplateRef} {frames : Option Frames} {params : Record} {q : Nat}
    (h : a.plan env p op s = (.ok (.call out r frames params q b), t)) :
    reach r ∧ ∀ f, frames = some f → ∀ c ∈ f.calls, reach c.callee := by
  obtain ⟨-, ⟨point, callee, base, args, rfl⟩, ⟨rfl, -⟩ | ⟨point', c, cs, hw, rfl, rfl, rfl, -⟩⟩ :=
    (plan_changes h).call _ _ _ _ _ _ rfl
  · refine ⟨?_, fun _ h => (by cases h)⟩
    rw [plan, planCall] at h
    cases hw : a.waitingAt? point with
    | some c => rw [hw] at h; cases h
    | none =>
      rw [hw] at h
      obtain ⟨r', u, -, h⟩ := Render.bind_eq_ok.1 h
      obtain ⟨q', u', -, h⟩ := Render.bind_eq_ok.1 h
      obtain ⟨c, u'', hc, h⟩ := Render.bind_eq_ok.1 h
      cases c with
      | none => cases h
      | some c =>
        cases h
        exact findCallee_reaches he ha.own hc
  · refine ⟨ha.waiting _ _ hw _ List.mem_cons_self, ?_⟩
    rintro f ⟨⟩ d hd
    exact ha.waiting _ _ hw d (List.mem_cons_of_mem _ hd)

theorem start_eq {injected params : Record} {unit : Nat} {c : CompiledTemplate}
    {held : TemplateRef → Bool} (h : start injected unit c params held = .ok a) :
    a.unit = unit ∧ a.template = c ∧ a.locals.size = c.procedure.layout.size ∧
      a.waiting = none := by
  obtain ⟨b, hb, h⟩ := Except.bind_ok_iff.1 h
  have hfilled := (fillParams_changed (P := fun _ => True) trivial (fun _ _ => trivial)
    (fun _ _ => trivial) (fun _ _ _ _ => trivial) hb)
  have hstate := fillState_changed (P := fun _ => True) (fun _ _ => trivial) h
  refine ⟨hstate.unit.trans hfilled.unit, hstate.template.trans hfilled.template,
    (hstate.size.trans hfilled.size).trans Array.size_replicate, ?_⟩
  have hw : b.waiting = none := hfilled.waiting.elim id id
  exact hstate.waiting.elim (fun he => he.trans hw) id

theorem putBack_changed {ls : List (Nat × Local)} (h : a.putBack ls = .ok b) :
    a.Changed (fun _ => True) (ls.map (·.1)) b := by
  induction ls generalizing a with
  | nil =>
    cases h
    exact .refl
  | cons l ls ih =>
    obtain ⟨slot, l⟩ := l
    obtain ⟨c, hc, h⟩ := Except.bind_ok_iff.1 h
    exact (set_changed hc List.mem_cons_self fun _ _ => trivial).trans
      ((ih h).mono fun n hn => List.mem_cons_of_mem _ hn)

theorem restore_eq_ok {f : Frames} (h : a.restore f = .ok (p, b)) :
    ∃ e c, a.template.procedure.points[f.outer.point]? = some e ∧
      e.live.length = f.outer.locals.length ∧ a.putBack (e.live.zip f.outer.locals) = .ok c ∧
        p = e.position ∧
          b = { c with waiting := if f.calls.isEmpty then none else some (f.outer.point, f.calls) } := by
  by_cases hn : f.outer.template = a.template.name
  case neg => simp [restore, contradiction, hn] at h
  cases he : a.template.procedure.points[f.outer.point]? with
  | none => simp [restore, contradiction, hn, he] at h
  | some e =>
    by_cases hl : e.live.length = f.outer.locals.length
    case neg => simp [restore, contradiction, hn, he, hl] at h
    simp only [restore, hn, he, hl, ne_eq, not_true_eq_false, if_false] at h
    obtain ⟨c, hc, h⟩ := Except.bind_ok_iff.1 h
    cases h
    exact ⟨e, c, rfl, hl, hc, rfl, rfl⟩

theorem restore_changed {f : Frames} (h : a.restore f = .ok (p, b)) :
    ∃ e, a.template.procedure.points[f.outer.point]? = some e ∧
      a.Changed (fun _ => True) e.live { b with waiting := a.waiting } ∧
        ∀ point calls, b.waiting = some (point, calls) → calls = f.calls := by
  obtain ⟨e, c, he, hl, hc, -, rfl⟩ := restore_eq_ok h
  have hac := putBack_changed hc
  rw [List.map_fst_zip (Nat.le_of_eq hl)] at hac
  refine ⟨e, he, { hac with waiting := .inl rfl }, fun point calls hw => ?_⟩
  dsimp only at hw
  split at hw <;> cases hw
  rfl

theorem restore_waiting {f : Frames} (h : a.restore f = .ok (p, b)) :
    b.unit = a.unit ∧ b.template = a.template ∧ b.locals.size = a.locals.size ∧
      ∀ point calls, b.waiting = some (point, calls) → calls = f.calls := by
  obtain ⟨e, -, hab, hwaiting⟩ := restore_changed h
  exact ⟨hab.unit, hab.template, hab.size, hwaiting⟩

theorem awaitSink_apply (s : RenderState) : awaitSink s =
    if s.holdsSink then (.error (.pause .sinkNotReady), { s with holdsSink := false })
    else if s.capture.isSome then (.ok (), { s with holdsSink := false })
    else
      (match s.sink.poll.1 with
        | .ready => .ok ()
        | .notReady => .error (.pause .sinkNotReady),
      { s with
        sink := s.sink.poll.2, holdsSink := false, events := .poll s.sink.poll.1 :: s.events }) := by
  cases hh : s.holdsSink with
  | true => simp [awaitSink, Render.takeHold, Render.bind_apply, hh]
  | false =>
    cases hc : s.capture with
    | some x => simp [awaitSink, Render.takeHold, Render.poll, Render.bind_apply, hh, hc]
    | none =>
      cases hr : s.sink.poll.1 <;>
        simp [awaitSink, Render.takeHold, Render.poll, Render.bind_apply, hh, hc, hr]

theorem writeSink_apply (text : String) (s : RenderState) : writeSink text s =
    match s.capture with
    | some x => (.ok (), { s with capture := some (x ++ text) })
    | none =>
      let t := { s with
        sink := (s.sink.append text).2
        events := .append text (s.sink.append text).1 :: s.events }
      match (s.sink.append text).1 with
      | .ok .ready => (.ok (), t)
      | .ok .notReady => (.ok (), { t with holdsSink := true })
      | .error e => (.error (.failure (.sink e)), t) := by
  cases hc : s.capture with
  | some x => simp [writeSink, Render.append, Render.bind_apply, hc]
  | none =>
    rcases hr : (s.sink.append text).1 with e | _ | _ <;>
      simp [writeSink, Render.append, Render.holdSink, Render.bind_apply, hc, hr]

theorem awaitSink_leaves {r : Except Stop Unit} (h : awaitSink s = (r, t)) :
    t.cells = s.cells ∧ t.depth = s.depth := by
  rw [awaitSink_apply] at h
  split at h
  · cases h
    exact ⟨rfl, rfl⟩
  · split at h <;> cases h <;> exact ⟨rfl, rfl⟩

theorem writeSink_leaves {text : String} {r : Except Stop Unit} (h : writeSink text s = (r, t)) :
    t.cells = s.cells ∧ t.depth = s.depth := by
  rw [writeSink_apply] at h
  split at h
  · cases h
    exact ⟨rfl, rfl⟩
  · dsimp only at h
    split at h <;> cases h <;> exact ⟨rfl, rfl⟩

theorem awaitSink_error {e : Stop} (h : awaitSink s = (.error e, t)) : e = .pause .sinkNotReady := by
  rw [awaitSink_apply] at h
  split at h
  · cases h
    rfl
  · split at h
    · cases h
    · split at h <;> cases h
      rfl

theorem writeSink_error {text : String} {e : Stop} (h : writeSink text s = (.error e, t)) :
    ∃ e', e = .failure (.sink e') := by
  rw [writeSink_apply] at h
  split at h
  · cases h
  · dsimp only at h
    split at h <;> cases h
    exact ⟨_, rfl⟩

theorem lt_size_of_buffer {slot : Nat} {text : String} (h : a.buffer slot = .ok text) :
    slot < a.locals.size := by
  unfold buffer at h
  split at h
  · rename_i hl
    exact (Array.getElem?_eq_some_iff.1 hl).1
  · cases h

def HasOutput (a : Activation) (out : Output) : Prop :=
  ∀ slot, out = .buffer slot → ∃ text, a.buffer slot = .ok text

def keeping (a : Activation) (callee : TemplateRef) (params : Record) : TemplateRef → Bool := fun t =>
  callee = t || a.holds t || Value.fieldsKeep t params

def after (a : Activation) (u : RenderState) : Output → Activation
  | .sink => a
  | .buffer slot => { a with locals := a.locals.setIfInBounds slot (.buffer (u.capture.getD "")) }

theorem after_changed {P : Value → Prop} {slots : List Nat} (a : Activation) (u : RenderState)
    {out : Output} (h : ∀ slot, out = .buffer slot → slot ∈ slots) :
    a.Changed P slots (a.after u out) := by
  cases out with
  | sink => exact .refl
  | buffer slot =>
    refine ⟨rfl, rfl, rfl, by simp [after], .inl rfl, fun n => ?_⟩
    by_cases hn : slot = n ∧ slot < a.locals.size
    · obtain ⟨rfl, hlt⟩ := hn
      exact .inr ⟨h slot rfl, .buffer (u.capture.getD ""), by simp [after, hlt], fun _ hv => (by cases hv)⟩
    · refine .inl ?_
      simp only [after, Array.getElem?_setIfInBounds]
      split
      · rename_i hsn
        rw [if_neg fun hlt => hn ⟨hsn, hlt⟩, ← hsn, Array.getElem?_eq_none (by simpa [hsn] using hn)]
      · rfl

theorem called_changed {P : Value → Prop} {op : Op} {out : Output} {r : TemplateRef}
    {frames : Option Frames} {params : Record} {q : Nat}
    (h : (Action.call out r frames params q b).Changes P op p a) (u : RenderState) :
    a.Changed P op.writes (b.after u out) := by
  obtain ⟨-, ⟨_, _, _, _, rfl⟩, -⟩ := h.call _ _ _ _ _ _ rfl
  exact h.changed.trans (b.after_changed u (by rintro slot rfl; exact List.mem_cons_self))

theorem enter_callee {out : Output} (hd : s.depth < env.maxDepth) (ho : a.HasOutput out)
    (r : TemplateRef) (frames : Option Frames) (params : Record) :
    a.enter env run out r frames params s =
      let y := run r frames params (a.keeping r params) (s.within a out)
      (y.1.map fun o => (o, a.after y.2 out), s.back y.2 out) := by
  have hd := Nat.not_le.2 hd
  cases out with
  | sink =>
    have hkeep : (fun t => decide (r = t) || a.holds t || Value.fieldsKeep t params) =
      a.keeping r params := rfl
    simp only [enter, Render.deeper, Render.bind_apply, Render.get_apply, hd, if_false, hkeep,
      RenderState.within]
    rcases run r frames params (a.keeping r params) { s with depth := s.depth + 1 } with
      ⟨e | o, u⟩ <;> rfl
  | buffer slot =>
    obtain ⟨text, hb⟩ := ho slot rfl
    have hlt := lt_size_of_buffer hb
    have hkeep : (fun t => decide (r = t) || a.holds t || Value.fieldsKeep t params) =
      a.keeping r params := rfl
    simp only [enter, Render.deeper, Render.bind_apply, Render.get_apply, hd, if_false, hkeep, hb,
      RenderState.within, Except.toOption, Render.liftM_apply, Render.ending_ok, Render.capturing]
    rcases run r frames params (a.keeping r params)
      { s with depth := s.depth + 1, capture := some text } with ⟨e | o, u⟩
    · rfl
    · simp [Except.map, set, hlt, after, RenderState.back, Array.setIfInBounds]

theorem enter_refused {out : Output} (h : ¬ (s.depth < env.maxDepth ∧ a.HasOutput out))
    (r : TemplateRef) (frames : Option Frames) (params : Record) :
    ∃ e, (if env.maxDepth ≤ s.depth then e = .callDepthExceeded (env.library.nameOf r) env.maxDepth
        else e.OfEvaluation) ∧
      ∀ run, a.enter env run out r frames params s = (.error (.failure e), s) := by
  by_cases hd : env.maxDepth ≤ s.depth
  · exact ⟨_, if_pos hd ▸ rfl, fun run => enter_too_deep hd⟩
  have ho : ¬ a.HasOutput out := fun ho => h ⟨Nat.not_le.1 hd, ho⟩
  cases out with
  | sink => exact absurd (fun _ h => (by cases h)) ho
  | buffer slot =>
    cases hb : a.buffer slot with
    | ok text => exact absurd (fun _ h => by cases h; exact ⟨text, hb⟩) ho
    | error e =>
      refine ⟨e, ?_, fun run => ?_⟩
      · rw [if_neg hd]
        exact Evaluated.buffer a slot e hb
      · simp [-Value.fieldsKeep_eq, enter, Render.deeper, Render.bind_apply, hd, hb]

/-- A call fails before its callee begins, or does what the callee does. -/
theorem enter_cases (env : Env) (run : Runner) (a : Activation) (out : Output) (r : TemplateRef)
    (frames : Option Frames) (params : Record) (s : RenderState) :
    (∃ e, a.enter env run out r frames params s = (.error (.failure e), s)) ∨
      a.HasOutput out ∧ a.enter env run out r frames params s =
        let y := run r frames params (a.keeping r params) (s.within a out)
        (y.1.map fun o => (o, a.after y.2 out), s.back y.2 out) := by
  by_cases h : s.depth < env.maxDepth ∧ a.HasOutput out
  · exact .inr ⟨h.2, enter_callee h.1 h.2 r frames params⟩
  · obtain ⟨e, -, he⟩ := enter_refused h r frames params
    exact .inl ⟨e, he run⟩

theorem attempt_goto {q : Nat} {op : Op} (h : a.attempt env run p op s = (.ok (.goto q b), t)) :
    ∃ act u, a.plan env p op s = (.ok act, u) ∧ act.position = q ∧
      (∀ P : Value → Prop, act.Changes P op p a → a.Changed P op.writes b) ∧
        (act = .goto q b ∨ op.point? ≠ none) := by
  rw [attempt_apply] at h
  rcases hx : a.step env run p op s with ⟨(why | e) | progress, u⟩ <;> rw [hx] at h <;> cases h
  obtain ⟨act, v, hplan, hperform⟩ := Render.bind_eq_ok.1 hx
  have hch := plan_changes hplan
  refine ⟨act, v, hplan, ?_⟩
  cases act with
  | goto q b =>
    cases hperform
    exact ⟨rfl, fun _ h => h.changed, .inl rfl⟩
  | write text q b =>
    obtain ⟨-, _, -, hperform⟩ := Render.bind_eq_ok.1 hperform
    obtain ⟨-, _, -, hperform⟩ := Render.bind_eq_ok.1 hperform
    cases hperform
    exact ⟨rfl, fun _ h => h.changed, .inr (hch.write _ _ _ rfl).2.1⟩
  | call out callee frames params q c =>
    obtain ⟨-, ⟨_, _, _, _, rfl⟩, -⟩ := hch.call _ _ _ _ _ _ rfl
    obtain ⟨⟨o, d⟩, _, henter, hperform⟩ := Render.bind_eq_ok.1 hperform
    obtain ⟨e, he⟩ | ⟨-, he⟩ := enter_cases env run c out callee frames params v <;>
      rw [he] at henter
    · cases henter
    · dsimp only at henter
      generalize run callee frames params (c.keeping callee params) (v.within c out) = y at henter
      obtain ⟨_ | _, w⟩ := y <;> cases henter
      cases o <;> cases hperform
      exact ⟨rfl, fun _ h => called_changed h w, .inr fun h => (by cases h)⟩

/-- A run that is over is so with any more steps. -/
theorem execute_add {n p : Nat} {a : Activation} {s : RenderState} (k : Nat)
    (h : ∀ q b, (a.execute env run n p s).1 ≠ .ok (.running q b)) :
    a.execute env run (n + k) p s = a.execute env run n p s := by
  induction n generalizing p a s with
  | zero => exact absurd rfl (h p a)
  | succ n ih =>
    rw [Nat.succ_add]
    unfold execute at h ⊢
    cases ho : a.template.procedure.ops[p]? with
    | none => rfl
    | some op =>
      simp only [ho, Render.bind_apply] at h ⊢
      rcases hx : a.attempt env run p op s with ⟨e | progress, t⟩
      · rfl
      · cases progress with
        | goto q b =>
          simp only [hx] at h ⊢
          exact ih h
        | paused why b calls => rfl

theorem execute_running {n k q : Nat} (h : a.execute env run n p s = (.ok (.running q b), t)) :
    a.execute env run (n + k) p s = b.execute env run k q t := by
  induction n generalizing p a s with
  | zero =>
    cases h
    rw [Nat.zero_add]
  | succ n ih =>
    rw [Nat.succ_add, execute]
    rw [execute] at h
    cases ho : a.template.procedure.ops[p]? with
    | none =>
      rw [ho] at h
      cases h
    | some op =>
      simp only [ho, Render.bind_apply] at h ⊢
      rcases hx : a.attempt env run p op s with ⟨e | progress, u⟩ <;> simp only [hx] at h ⊢
      · cases h
      · cases progress with
        | goto r c => exact ih h
        | paused why c calls =>
          simp only [Render.bind_apply, Render.liftM_apply] at h
          cases hsave : c.save (op.point?.getD 0) why calls <;> rw [hsave] at h <;> cases h

end Activation

end ResumableTemplates
