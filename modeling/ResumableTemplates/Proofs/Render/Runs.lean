import ResumableTemplates.Proofs.Render.Faithful

/-! Runs of templates are faithful at every depth. By induction on the steps of a run, every op is
done or the activation is saved; by induction on the levels of calls, so is every callee. -/
namespace ResumableTemplates

def Activation.saved (a : Activation) (point : Nat) (live : List Nat) : SavedActivation :=
  ⟨a.template.name, point, live.map (a.locals.getD · .unset)⟩

namespace Setting

variable {lib : Library} {known : Nat → String → UInt64 → Prop} {S : Setting lib known} {d p : Nat}
  {a b : Activation}

theorem Reports.after {t : TemplateRef} {params : Record} {goal goal' : List Deed → End → Prop}
    {s u : RenderState} {r : Except Stop FrameOutcome × RenderState} {deeds : List Deed}
    (h : S.Reports d t params goal u r) (hsu : Wrote S.env S.asks deeds s u)
    (hgoal : ∀ deeds' e, goal deeds' e → goal' (deeds ++ deeds') e) :
    S.Reports d t params goal' s r := by
  cases h with
  | done hw hg => exact .done (hsu.trans hw) (hgoal _ _ hg)
  | paused hw hp hf hgo =>
    refine .paused (hsu.trans hw) (hsu.spends.pays hp) hf fun deeds' e hl => ?_
    rw [List.append_assoc]
    exact hgoal _ _ (hgo _ _ hl)
  | failed hw hg => exact .failed (hsu.trans hw) (hgoal _ _ hg)
  | broken hw hbreak => exact .broken (hsu.trans hw) hbreak

theorem Reports.mono {t : TemplateRef} {params : Record} {goal goal' : List Deed → End → Prop}
    {s : RenderState} {r : Except Stop FrameOutcome × RenderState}
    (h : S.Reports d t params goal s r) (hgoal : ∀ deeds e, goal deeds e → goal' deeds e) :
    S.Reports d t params goal' s r :=
  h.after .refl fun _ _ hg => hgoal _ _ hg

section Saved

variable {op : Op} {point : Nat} {live : List Nat}

theorem Sound.saved_sound (h : S.Sound p b) (ho : b.template.procedure.ops[p]? = some op)
    (hpt : op.point? = some point) (hpoint : b.template.procedure.points[point]? = some ⟨p, live⟩)
    {inCall : Bool} (hcall : inCall → op.IsCall) :
    (b.saved point live).Sound S.cert (.compiled b.unit b.template.name) inCall := by
  intro c hc
  cases h.placed.template.symm.trans hc
  exact ⟨p, live, op, b, rfl, hpoint, ho, hpt, hcall, rfl, h.typed, rfl⟩

theorem Sound.saves (h : S.Sound p b) (point : Nat) (live : List Nat) :
    S.Saves (b.saved point live) := by
  intro l hl v hv
  obtain ⟨n, -, rfl⟩ := List.mem_map.1 hl
  rw [Array.getD_eq_getD_getElem?] at hv
  cases hn : b.locals[n]? with
  | none => rw [hn] at hv; cases hv
  | some l =>
    rw [hn] at hv
    exact h.slots n v (by rw [hn]; exact hv)

theorem Sound.restored_alike (h : S.Sound p b) (ho : b.template.procedure.ops[p]? = some op)
    (hpt : op.point? = some point) (hpoint : b.template.procedure.points[point]? = some ⟨p, live⟩)
    (hw : b.waiting = none) {a c : Activation}
    (ha : S.world.fresh b.unit b.template b.params = .ok a) {calls : List PendingCall} {q : Nat}
    (hc : a.restore ⟨b.saved point live, calls⟩ = .ok (q, c)) :
    q = p ∧ c.waiting = (if calls.isEmpty then none else some (point, calls)) ∧
      { c with waiting := none }.Alike False (b.notes S.cert p) b := by
  have hlib := h.placed.template
  obtain ⟨live', hpoint', hlive, hcover⟩ := h.placed.flow.points p op point ho hpt
  cases hpoint.symm.trans hpoint'
  obtain ⟨a₀, ha₀, hhead⟩ := h.header
  cases ha.symm.trans ha₀
  obtain ⟨hu, ht, hp, -⟩ := World.fresh_changed S.cert hlib ha
  obtain ⟨a₁, ha₁, hsize⟩ :=
    Activation.start_ok h.placed.flow S.world.injected b.params b.unit fun _ => false
  cases ha.symm.trans ha₁
  obtain ⟨d, hd, hdu, hdt, hdp, hds, hdw, hdl⟩ := Activation.restore_eq
    (b.locals.getD · .unset) calls (congrArg CompiledTemplate.name ht) (ht ▸ hpoint)
    fun n hn => hsize.size ▸ ht ▸ (hlive n hn).2
  cases hc.symm.trans hd
  have htemplate : c.template = b.template := hdt.trans ht
  refine ⟨rfl, hdw, hdu.trans hu, htemplate, .of_eq (hdp.trans hp), hw.symm, ?_,
    h.typed.size.trans (congrArg (·.procedure.layout.size) htemplate.symm), ?_⟩
  · exact hds.trans (hsize.size.trans (by rw [hdt]))
  · intro n type hn
    obtain ⟨l, k, hl, hk, hpair⟩ := h.typed.slots n type hn
    cases hl.symm.trans hk
    refine ⟨l, l, (hdl n).trans ?_, hl, hpair⟩
    by_cases hnl : n ∈ live
    · rw [if_pos hnl, Array.getD_eq_getD_getElem?, hl]
      rfl
    · rw [if_neg hnl, ← hhead n ((hcover n type hn).resolve_right hnl)]
      exact hl

end Saved

theorem Stopped.save {deeds : List Deed} {point : Nat} {calls : List PendingCall}
    (h : S.Stopped d p a deeds point calls b) :
    ∃ f, (∀ why, b.save point why calls = .ok (.paused f why)) ∧
      S.Resumes (.compiled a.unit a.template.name) f ∧ ∀ deeds' e,
        Leads S.world d (.template (.compiled a.unit a.template.name) (some f) a.params) deeds' e →
          Leads S.world d (.ops p a) (deeds ++ deeds') e := by
  obtain ⟨op, ho, hpt, hcall⟩ := h.op
  have hb := h.sound
  rw [← h.template] at ho
  obtain ⟨live, hpoint, -⟩ := hb.placed.flow.points p op point ho hpt
  rw [← h.unit, ← h.template, ← h.params]
  refine ⟨⟨b.saved point live, calls⟩, fun why => ?_, ⟨?_, hb.saves point live, h.keeps⟩, ?_⟩
  · simp only [Activation.save, hpoint, Activation.saved]
  · cases calls with
    | nil => exact hb.saved_sound ho hpt hpoint fun hf => by cases hf
    | cons c cs =>
      exact ⟨hb.saved_sound ho hpt hpoint fun _ => hcall (by simp), h.frames c cs rfl⟩
  · intro deeds' e hl
    cases hl with
    | missing hc =>
      rw [library_eq, hb.placed.template] at hc
      cases hc
    | resumed hc ha hr hl =>
      rw [library_eq] at hc
      cases hb.placed.template.symm.trans hc
      obtain ⟨rfl, hwait, halike⟩ := hb.restored_alike ho hpt hpoint h.waiting ha hr
      exact h.goesOn _ hwait halike _ _ hl

inductive Executed (S : Setting lib known) (d p : Nat) (a : Activation) (s : RenderState) (n : Nat) :
    Except Stop Standing × RenderState → Prop
  | running : Wrote S.env S.asks deeds s u → Path S.world d n p a deeds q c → S.Sound q c →
      Executed S d p a s n (.ok (.running q c), u)
  | ended : S.Reports d (.compiled a.unit a.template.name) a.params
      (Leads S.world d (.ops p a)) s (r, u) → Executed S d p a s n (r.map .ended, u)

/-- Every op that is executed does what it leads to, up to the first at which the run ends. -/
theorem Sound.executed (h : S.Sound p a) {run : Runner}
    (hrun : d < S.world.maxDepth → S.Faithful (d + 1) run) (n : Nat) {s : RenderState}
    (hs : S.env.world s.bindings = S.world) (hd : s.depth = d) :
    Executed S d p a s n (a.execute S.env run n p s) := by
  -- Soundness is kept from op to op, and says that a pause can be saved where it happens.
  induction n generalizing p a s with
  | zero => exact .running .refl .nil h
  | succ n ih =>
    cases ho : a.template.procedure.ops[p]? with
    | none =>
      simp only [Activation.execute, ho]
      exact .ended (r := .ok .done) (.done .refl (.finished ho))
    | some op =>
      simp only [Activation.execute, ho, Render.bind_apply]
      have hatt := h.attempted ho hrun hs hd
      generalize a.attempt S.env run p op s = r at hatt
      cases hatt with
      | goto hw hl hb =>
        obtain ⟨hu, ht, hp⟩ := hl.on_same
        have hrest := ih hb (hw.world.trans hs) (hw.depth.trans hd)
        dsimp only
        generalize Activation.execute S.env run n _ _ _ = r at hrest ⊢
        cases hrest with
        | running hw' hpath hc => exact .running (hw.trans hw') (.cons hl hpath) hc
        | ended hrep =>
          rw [hu, ht, hp] at hrep
          exact .ended (hrep.after hw fun _ _ hl' => .next hl hl')
      | paused hw hp hst =>
        obtain ⟨op', ho', hpt, -⟩ := hst.op
        cases ho.symm.trans ho'
        obtain ⟨f, hsave, hf, hgo⟩ := hst.save
        simp only [hpt, Option.getD_some, Render.bind_apply, Render.liftM_apply, hsave]
        exact .ended (r := .ok (.paused f _)) (.paused hw hp hf hgo)
      | failed hw hl => exact .ended (r := .error _) (.failed hw (.stopped hl))
      | broken hw hbreak => exact .ended (r := .error _) (.broken hw hbreak)

end Setting

theorem le_foldl_max (f : α → Nat) (xs : List α) (n : Nat) :
    n ≤ xs.foldl (fun n x => max n (f x)) n ∧
      ∀ x ∈ xs, f x ≤ xs.foldl (fun n x => max n (f x)) n := by
  induction xs generalizing n with
  | nil => exact ⟨Nat.le_refl n, fun _ h => (by cases h)⟩
  | cons y ys ih =>
    obtain ⟨hle, hall⟩ := ih (max n (f y))
    refine ⟨Nat.le_trans (Nat.le_max_left _ _) hle, fun x hx => ?_⟩
    cases hx with
    | head => exact Nat.le_trans (Nat.le_max_right _ _) hle
    | tail _ hx => exact hall x hx

theorem Local.longest_of_value? {l : Local} {v : Value} (h : l.value? = some v) :
    v.longest = l.longest := by
  cases l <;> cases h <;> rfl

theorem Activation.longestList_bounds (env : Env) (a : Activation) :
    (∀ op ∈ a.template.procedure.ops, op.longest ≤ a.longestList env) ∧
      a.Keeps (·.longest ≤ a.longestList env) ∧
        Record.All (·.longest ≤ a.longestList env) env.injected := by
  simp only [longestList, ← Array.foldl_toList]
  refine ⟨fun op hop => ?_, fun n v hv => ?_, fun f hf => ?_⟩
  · have := (le_foldl_max Op.longest a.template.procedure.ops.toList 0).2 op hop.val
    omega
  · obtain ⟨l, hl, hlv⟩ := Option.bind_eq_some_iff.1 hv
    have := (le_foldl_max Local.longest a.locals.toList 0).2 l (Array.mem_of_getElem? hl).val
    have := Local.longest_of_value? hlv
    omega
  · have := Value.longestField_le_iff.1 (Nat.le_refl (Value.longestField env.injected)) f hf
    omega

theorem Activation.lt_stepBound {env : Env} {a : Activation} {n : Nat}
    (h : n ≤ a.template.procedure.ops.size *
      (a.longestList env + 2).pow a.template.procedure.loops) : n < a.stepBound env := by
  have hpos : 0 < (a.longestList env + 2).pow a.template.procedure.loops :=
    Nat.pow_pos (Nat.succ_pos _)
  refine Nat.lt_of_le_of_lt h ?_
  change _ < (a.template.procedure.ops.size + 1) * (a.longestList env + 2).pow _
  rw [Nat.add_mul, Nat.one_mul]
  exact Nat.lt_add_of_pos_right hpos

theorem Path.same {w : World} {d n p q : Nat} {a b : Activation} {deeds : List Deed}
    (h : Path w d n p a deeds q b) :
    b.unit = a.unit ∧ b.template = a.template ∧ b.params = a.params := by
  induction h with
  | nil => exact ⟨rfl, rfl, rfl⟩
  | cons hop _ ih =>
    obtain ⟨hu, ht, hp⟩ := hop.on_same
    exact ⟨ih.1.trans hu, ih.2.1.trans ht, ih.2.2.trans hp⟩

namespace Setting

variable {lib : Library} {known : Nat → String → UInt64 → Prop} {S : Setting lib known} {d p : Nat}
  {a : Activation}

theorem Sound.path_le (h : S.Sound p a) {n q : Nat} {b : Activation} {deeds : List Deed}
    (hp : Path S.world d n p a deeds q b) : n < a.stepBound S.env := by
  obtain ⟨hops, hkeeps, hinj⟩ := a.longestList_bounds S.env
  exact Activation.lt_stepBound
    (S.cert.ends _ _ _ h.placed.template S.world d _ n p q a b deeds rfl hops hkeeps hinj hp)

theorem Reports.of_ended {t : TemplateRef} {params : Record} {goal : List Deed → End → Prop}
    {s s' u : RenderState} {r : Except Stop FrameOutcome} {x : Render Standing}
    {f : Standing → Render FrameOutcome} (h : S.Reports d t params goal s (r, u))
    (hx : x s' = (r.map .ended, u)) (hf : ∀ o, f (.ended o) = pure o) :
    S.Reports d t params goal s ((x >>= f) s') := by
  rw [Render.bind_apply, hx]
  cases r with
  | error e => exact h
  | ok o =>
    simp only [Except.map, hf]
    exact h

/-- Ops are executed until none is left, or one is put off. -/
theorem Sound.finished (h : S.Sound p a) {run : Runner}
    (hrun : d < S.world.maxDepth → S.Faithful (d + 1) run) {s : RenderState}
    (hs : S.env.world s.bindings = S.world) (hd : s.depth = d) :
    S.Reports d (.compiled a.unit a.template.name) a.params (Leads S.world d (.ops p a)) s
      (a.finish S.env run p s) := by
  have hfirst := h.executed hrun Activation.patience hs hd
  generalize hx : a.execute S.env run Activation.patience p s = r at hfirst
  cases hfirst with
  | ended hrep => exact hrep.of_ended hx fun _ => rfl
  | @running deeds u q c hw hpath hc =>
    rw [Activation.finish, Render.bind_apply, hx]
    obtain ⟨hu, ht, hp⟩ := hpath.same
    have hrest := hc.executed hrun (c.stepBound S.env) (hw.world.trans hs) (hw.depth.trans hd)
    generalize hy : c.execute S.env run (c.stepBound S.env) q u = r at hrest
    cases hrest with
    | ended hrep =>
      rw [hu, ht, hp] at hrep
      exact (hrep.after hw fun _ _ hl => hpath.leads hl).of_ended hy fun _ => rfl
    | running _ hpath' _ => exact absurd (hc.path_le hpath') (Nat.lt_irrefl _)

end Setting

end ResumableTemplates
