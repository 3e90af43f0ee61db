import ResumableTemplates.Proofs.Render.Runs

/-! Templates of every kind are faithful, at every depth that calls may reach. A compiled template
starts from its header or from what was saved; by induction on the levels left, so do its callees. -/
namespace ResumableTemplates

namespace Setting

variable {lib : Library} {known : Nat → String → UInt64 → Prop} {S : Setting lib known} {d p : Nat}
  {a : Activation}

theorem Sound.held (h : S.Sound p a) (held : TemplateRef → Bool) :
    S.Sound p { a with isHeld := held } where
  placed := ⟨h.placed.template, h.placed.waiting⟩
  typed := { h.typed with }
  unit := h.unit
  slots := h.slots
  params := h.params
  header := h.header
  keeps := h.keeps

theorem fresh_sound {unit : Nat} {name : String} {t : CompiledTemplate} {params : Record}
    (hc : lib.compiled? unit name = some t) (hu : S.units unit)
    (hp : Record.All S.Fits params) : ∃ a, S.world.fresh unit t params = .ok a ∧ S.Sound 0 a ∧
      a.Alike False t.procedure.filled a ∧ a.unit = unit ∧ a.template = t ∧ a.params = params := by
  have hflow := S.cert.flow _ _ _ hc
  obtain ⟨a, ha, hab⟩ := Activation.start_ok hflow S.world.injected params unit fun _ => false
  have hch := Activation.start_changed (P := S.Fits) hflow S.injected hp
    (fun _ hv => Value.IsPlain.asksOnly hv) ha
  obtain ⟨hau, hat, hap, hwait⟩ := World.fresh_changed S.cert hc ha
  obtain ⟨hpl, hle⟩ := World.fresh_placed S.cert hc ha
  refine ⟨a, ha, ⟨hpl, hab.weaken hle, hau ▸ hu, hch.keeps fun n v hv => ?_, hap ▸ hp, ?_, ?_⟩,
    hab, hau, hat, hap⟩
  · simp only [Array.getElem?_replicate] at hv
    split at hv <;> cases hv
  · exact ⟨a, by rw [hau, hat, hap]; exact ha, fun _ _ => rfl⟩
  · intro point calls he
    rw [hwait] at he
    cases he

theorem fresh_start {unit : Nat} {t : CompiledTemplate} {params : Record}
    (h : S.world.fresh unit t params = .ok a) (held : TemplateRef → Bool) :
    Activation.start S.env.injected unit t params held = .ok { a with isHeld := held } := by
  rw [Activation.start_isHeld S.env.injected unit t params (fun _ => false) held]
  exact congrArg (Except.map _) h

theorem runCompiled_fresh {unit : Nat} {name : String} {t : CompiledTemplate} {params : Record}
    (hc : lib.compiled? unit name = some t) (hu : S.units unit) (hp : Record.All S.Fits params)
    {run : Runner} (hrun : d < S.world.maxDepth → S.Faithful (d + 1) run)
    (held : TemplateRef → Bool) {s : RenderState} (hs : S.env.world s.bindings = S.world)
    (hd : s.depth = d) :
    S.Reports d (.compiled unit name) params
      (Leads S.world d (.template (.compiled unit name) none params)) s
      (runCompiled S.env run unit t none params held s) := by
  obtain ⟨a, ha, hsound, -, rfl, rfl, rfl⟩ := fresh_sound hc hu hp
  obtain rfl := Library.name_of_compiled? hc
  have hstart := fresh_start ha held
  have hheld := hsound.held held
  rw [runCompiled, Render.bind_apply, Render.liftM_apply, hstart]
  refine (hheld.finished hrun hs hd).mono fun deeds e hl => ?_
  exact .fresh (by rw [library_eq, hc]) ha
    (hl.ops_of_alike S.cert library_eq { hheld.typed with } hheld.placed)

theorem Sound.restored (h : S.Sound 0 a)
    (htyped : a.Alike False a.template.procedure.filled a) {f : Frames}
    (hf : S.Resumes (.compiled a.unit a.template.name) f) :
    ∃ p b, a.restore f = .ok (p, b) ∧ S.Sound p b ∧ b.unit = a.unit ∧ b.template = a.template ∧
      b.params = a.params := by
  have hc := h.placed.template
  obtain ⟨p, live, g, he⟩ := hf.sound.entry hc
  have hsave : f = ⟨⟨a.template.name, f.outer.point, live.map g⟩, f.calls⟩ := by
    rw [← he.template, ← he.locals]
  obtain ⟨b, hb, hbu, hbt, hbp, hbs, hbw, hbl⟩ := Activation.restore_eq g f.calls rfl he.point
    fun n hn => htyped.size ▸ (he.bounds n hn).2
  rw [← hsave] at hb
  obtain ⟨p', a', b', ha', hb', halike, hpl⟩ := hf.sound.restore hc rfl htyped
  cases hb.symm.trans ha'
  cases hb.symm.trans hb'
  refine ⟨p, b, hb, ⟨hpl, halike, hbu ▸ h.unit, fun n v hv => ?_, hbp ▸ h.params,
    ?_, fun point calls hw => ?_⟩, hbu, hbt, hbp⟩
  · rw [hbl] at hv
    split at hv
    · rename_i hn
      refine hf.saves (g n) ?_ v hv
      rw [he.locals]
      exact List.mem_map_of_mem hn
    · exact h.slots n v hv
  · obtain ⟨a₀, ha₀, hhead⟩ := h.header
    refine ⟨a₀, by rw [hbu, hbt, hbp, ha₀], fun n hn => ?_⟩
    rw [hbt] at hn
    rw [hbl, if_neg fun hmem => ?_, hhead n hn]
    have := (he.bounds n hmem).1
    omega
  · rw [hbw] at hw
    split at hw <;> cases hw
    exact hf.keeps

theorem runCompiled_resumed {unit : Nat} {name : String} {t : CompiledTemplate} {params : Record}
    (hc : lib.compiled? unit name = some t) (hu : S.units unit) (hp : Record.All S.Fits params)
    {f : Frames} (hf : S.Resumes (.compiled unit name) f)
    {run : Runner} (hrun : d < S.world.maxDepth → S.Faithful (d + 1) run)
    (held : TemplateRef → Bool) {s : RenderState} (hs : S.env.world s.bindings = S.world)
    (hd : s.depth = d) :
    S.Reports d (.compiled unit name) params
      (Leads S.world d (.template (.compiled unit name) (some f) params)) s
      (runCompiled S.env run unit t (some f) params held s) := by
  obtain ⟨a, ha, hsound, htyped, rfl, rfl, rfl⟩ := fresh_sound hc hu hp
  obtain rfl := Library.name_of_compiled? hc
  have hstart := fresh_start ha held
  obtain ⟨p, b, hb, hbsound, hbu, hbt, hbp⟩ :=
    (hsound.held held).restored { htyped with } hf
  obtain ⟨p', b', c, hb', hcr, hbc, hpl⟩ := hf.sound.restore (a := { a with isHeld := held })
    (b := a) hc rfl { htyped with }
  cases hb.symm.trans hb'
  have hrep := hbsound.finished hrun hs hd
  rw [hbu, hbt, hbp] at hrep
  simp only [runCompiled, Render.bind_apply, Render.liftM_apply, hstart, Render.ending_ok, hb]
  exact hrep.mono fun deeds e hl => .resumed (by rw [library_eq, hc]) ha hcr
    (hl.ops_of_alike S.cert library_eq hbc hpl)

theorem runParts_reports {i part : Nat} {name : String} {all texts : List String}
    {params : Record} (hi : lib.hosts[i]? = some (.parts name all)) (ht : texts = all.drop part)
    (s : RenderState) :
    S.Reports d (.host i) params (fun deeds e => deeds = texts.map .write ∧ e = .done) s
      (runParts name part texts s) := by
  induction texts generalizing part s with
  | nil => exact .done .refl ⟨rfl, rfl⟩
  | cons x xs ih =>
    rw [runParts, Render.bind_apply]
    obtain ⟨t, ht', hpoll | ⟨hpoll, hpay⟩⟩ := Render.poll_wrote S.env S.asks s
    · rw [hpoll]
      dsimp only
      rw [Render.bind_apply]
      obtain ⟨r, u, happend, hw, -⟩ | ⟨u, e, happend, hw, href⟩ := Render.append_wrote S.env S.asks x t
      · rw [happend]
        have hxs : xs = all.drop (part + 1) := by
          rw [← List.drop_drop, ← ht]
          rfl
        refine (ih hxs u).after (ht'.trans hw) fun deeds' e h => ⟨?_, h.2⟩
        rw [h.1]
        rfl
      · rw [happend]
        exact .broken (ht'.trans hw) (.refused href)
    · rw [hpoll]
      refine .paused ht' hpay ⟨trivial, fun l hl v hv => ?_, fun c hc => (by cases hc)⟩ fun deeds' e hl => ?_
      · cases List.mem_singleton.1 hl
        cases hv
        exact trivial
      · cases hl with
        | noHost hn =>
          rw [library_eq, hi] at hn
          cases hn
        | host hh =>
          rw [library_eq, hi] at hh
          cases hh
          exact ⟨congrArg (List.map Deed.write) ht.symm, rfl⟩

/-- Runs of templates are faithful if those of the callees are, as far as calls may reach. -/
theorem runTemplate_faithful {run : Runner}
    (hrun : d < S.world.maxDepth → S.Faithful (d + 1) run) :
    S.Faithful d (runTemplate S.env run) := by
  intro t frames params held s hs hd hin hp hf
  cases t with
  | compiled unit name =>
    simp only [runTemplate, S.library]
    cases hc : lib.compiled? unit name with
    | none => exact .failed .refl (.missing (by rw [library_eq, hc]))
    | some c =>
      cases frames with
      | none => exact runCompiled_fresh hc hin hp hrun held hs hd
      | some f => exact runCompiled_resumed hc hin hp (hf f rfl) hrun held hs hd
  | host i =>
    simp only [runTemplate, S.library]
    cases hi : lib.hosts[i]? with
    | none => exact .failed .refl (.noHost (by rw [library_eq, hi]))
    | some h =>
      have hleads : Leads S.world d (.template (.host i) frames params)
          ((h.left frames).map .write) .done :=
        .host (by rw [library_eq, hi])
      cases h with
      | probe name => exact .done (.note rfl) hleads
      | parts name all =>
        refine (runParts_reports hi rfl s).mono fun deeds e he => ?_
        rw [he.1, he.2]
        exact hleads

/-- Every run is faithful in which calls may nest as deep as there are levels. -/
theorem runWithin_faithful (levels : Nat) (h : S.world.maxDepth ≤ d + levels) :
    S.Faithful d (runWithin S.env levels) := by
  induction levels generalizing d with
  | zero => exact runTemplate_faithful fun hlt => absurd h (by omega)
  | succ levels ih => exact runTemplate_faithful fun _ => ih (by omega)

end Setting

end ResumableTemplates
