import ResumableTemplates.Proofs.Render.Congruence

/-! The setting of a render: it is led to no other units than some, and all providers in the values
that it reads are among some. Activations that are sound in a setting stay so from op to op. -/
namespace ResumableTemplates

def TemplateRef.Within (units : Nat → Prop) : TemplateRef → Prop
  | .compiled unit _ => units unit
  | .host _ => True

theorem TemplateRef.within_true (t : TemplateRef) : t.Within fun _ => True := by
  cases t <;> trivial

/-- Holds if some units are there, and the lookup leads to no others. -/
structure Env.Involves (env : Env) (units : Nat → Prop) : Prop where
  alive : ∀ unit, units unit → env.isAlive unit = true
  template : ∀ name t, env.lookup.template? name = some t → t.Within units
  delegate : ∀ name variant t,
    env.lookup.delegate? name variant = some t → t.Within units

structure Env.Confines (env : Env) (units : Nat → Prop) : Prop where
  template : ∀ name t, env.lookup.template? name = some t → t.Within units
  delegate : ∀ name variant t,
    env.lookup.delegate? name variant = some t → t.Within units

theorem Env.confines_true (env : Env) : env.Confines fun _ => True :=
  ⟨fun _ t _ => t.within_true, fun _ _ t _ => t.within_true⟩

theorem Env.Involves.confines {env : Env} {units : Nat → Prop} (h : env.Involves units) :
    env.Confines units :=
  ⟨h.template, h.delegate⟩

/-- Where renders take place: what they read, and what is known of it. -/
structure Setting (lib : Library) (known : Nat → String → UInt64 → Prop) where
  env : Env
  bindings : Table Site Binding
  cert : Certificate lib known
  units : Nat → Prop
  asks : Nat → Prop
  library : env.library = lib
  confines : env.Confines units
  injected : Record.All (Value.AsksOnly asks) env.injected

namespace Setting

variable {lib : Library} {known : Nat → String → UInt64 → Prop} (S : Setting lib known)

def world : World := S.env.world S.bindings

def Fits (v : Value) : Prop := v.AsksOnly S.asks

def Saves (s : SavedActivation) : Prop := ∀ l ∈ s.locals, ∀ v, l.value? = some v → S.Fits v

structure Keeps (c : PendingCall) : Prop where
  within : c.callee.Within S.units
  params : Record.All S.Fits c.params
  saves : S.Saves c.saved

/-- Holds of a saved render that can go on in the setting. -/
structure Resumes (t : TemplateRef) (f : Frames) : Prop where
  sound : FramesSound S.cert t f.outer f.calls
  saves : S.Saves f.outer
  keeps : ∀ c ∈ f.calls, S.Keeps c

/-- Holds of an activation that stands at a position as its template's certificate says. -/
structure Sound (p : Nat) (a : Activation) : Prop where
  placed : a.Placed S.cert p
  typed : a.Alike False (a.notes S.cert p) a
  unit : S.units a.unit
  slots : a.Keeps S.Fits
  params : Record.All S.Fits a.params
  header : ∃ a₀, S.world.fresh a.unit a.template a.params = .ok a₀ ∧
    ∀ n, n < a.template.procedure.header → a.locals[n]? = a₀.locals[n]?
  keeps : ∀ point calls, a.waiting = some (point, calls) → ∀ c ∈ calls, S.Keeps c

variable {S} {p : Nat} {a b : Activation}

theorem Sound.supply (h : S.Sound p a) : Supply (fun _ => True) S.Fits S.world a :=
  ⟨Value.AsksOnly.closed S.asks, h.slots, S.injected⟩

theorem Sound.ready (h : S.Sound p a) : a.Ready S.env S.asks S.bindings :=
  h.supply

theorem Sound.changed (h : S.Sound p a) {q : Nat} {slots : List Nat}
    (hab : a.Changed S.Fits slots b)
    (hslots : ∀ n ∈ slots, a.template.procedure.header ≤ n) (hpl : b.Placed S.cert q)
    (hty : b.Alike False (b.notes S.cert q) b) (hw : b.waiting = none) : S.Sound q b where
  placed := hpl
  typed := hty
  unit := hab.unit ▸ h.unit
  slots := hab.keeps h.slots
  params := hab.params ▸ h.params
  header := by
    obtain ⟨a₀, ha, hn⟩ := h.header
    refine ⟨a₀, by rw [hab.unit, hab.template, hab.params, ha], fun n hlt => ?_⟩
    rw [hab.template] at hlt
    rw [hab.other fun hmem => by have := hslots n hmem; omega]
    exact hn n hlt
  keeps := by
    intro point calls he
    rw [hw] at he
    cases he

theorem Sound.changes (h : S.Sound p a) {op : Op}
    (ho : a.template.procedure.ops[p]? = some op) {act : Action}
    (hact : a.action S.world p op = .ok act) :
    act.Changes S.Fits op p a :=
  Activation.action_changes h.supply
    (fun c hc => ((h.placed.flow.safe _ _ ho).reads c (Op.codes_of_stored hc)).bears _) hact

theorem tolerates_all (w : World) : w.Tolerates (fun _ => True) known :=
  ⟨fun _ _ => trivial, fun _ _ _ _ _ _ => trivial, fun _ _ _ _ _ _ _ _ => trivial⟩

theorem Sound.typed_next (h : S.Sound p a) {op : Op}
    (ho : a.template.procedure.ops[p]? = some op) {act : Action}
    (hact : a.action S.world p op = .ok act) :
    ∃ Γ, (act.position, Γ) ∈ op.flows p (a.notes S.cert p) ∧ act.next.Alike False Γ act.next ∧
      ∀ out t frames params q b, act = .call out t frames params q b → out.Safe Γ := by
  have hpair := h.placed.action_alike ho (.refl S.world) h.typed (tolerates_all S.world)
  obtain ⟨act', hact', halike⟩ := hpair.ok hact
  cases hact.symm.trans hact'
  cases halike with
  | goto hmem hab => exact ⟨_, hmem, hab, fun _ _ _ _ _ _ he => (by cases he)⟩
  | write hmem hab => exact ⟨_, hmem, hab, fun _ _ _ _ _ _ he => (by cases he)⟩
  | call hmem hab hout _ =>
    refine ⟨_, hmem, hab, fun _ _ _ _ _ _ he => ?_⟩
    cases he
    exact hout

/-- An activation stays sound from op to op. -/
theorem Sound.next (h : S.Sound p a) {op : Op} (ho : a.template.procedure.ops[p]? = some op)
    {act : Action} (hact : a.action S.world p op = .ok act) : S.Sound act.position act.next := by
  obtain ⟨hpl, hw, -⟩ := h.placed.action ho hact
  obtain ⟨Γ, hmem, hty, -⟩ := h.typed_next ho hact
  exact h.changed (h.changes ho hact).changed (h.placed.flow.writes _ _ ho) hpl
    (hty.weaken (h.placed.le_flow ho hact hmem)) hw

theorem Sound.received (h : S.Sound p a) {op : Op} (ho : a.template.procedure.ops[p]? = some op)
    {out : Output} {t : TemplateRef} {frames : Option Frames} {params : Record} {q : Nat}
    (hact : a.action S.world p op = .ok (.call out t frames params q b)) (deeds : List Deed) :
    ∃ c, b.received deeds out = .ok c ∧ S.Sound q c ∧ b.Changed S.Fits op.writes c ∧
      c.waiting = none := by
  have hb := h.next ho hact
  have hch := h.changes ho hact
  obtain ⟨hpl, hw, -⟩ := h.placed.action ho hact
  obtain ⟨Γ, hmem, hty, hout⟩ := h.typed_next ho hact
  obtain ⟨c, hc⟩ := Activation.received_ok hty (hout _ _ _ _ _ _ rfl) deeds
  obtain ⟨c', hc', hcc, hu, ht, hwait⟩ :=
    Activation.received_alike hty (hout _ _ _ _ _ _ rfl) hc
  cases hc.symm.trans hc'
  have hbc : b.Changed S.Fits op.writes c :=
    Activation.received_changed (fun slot he => by
      obtain ⟨-, ⟨_, _, _, _, rfl⟩, -⟩ := hch.call _ _ _ _ _ _ rfl
      subst he
      exact List.mem_cons_self) hc
  have hnone : c.waiting = none := hwait.trans hw
  refine ⟨c, hc, hb.changed hbc ?_ ⟨?_, .inl hnone⟩ (hcc.weaken ?_) hnone, hbc, hnone⟩
  · intro n hn
    rw [hch.changed.template]
    exact h.placed.flow.writes _ _ ho n hn
  · rw [hu, ht]
    exact hpl.template
  · rw [Activation.notes, hu, ht]
    exact h.placed.le_flow ho hact hmem

theorem within_of_template {unit i : Nat} {template name : String} {t : TemplateRef}
    (hu : S.units unit) (h : S.world.template unit template i name = .ok t) :
    t.Within S.units := by
  have hlook : ∀ {t}, S.env.lookUp name = .ok t → t.Within S.units := by
    intro t ht
    unfold Env.lookUp at ht
    split at ht
    · rename_i hl
      cases ht
      exact S.confines.template _ _ hl
    · cases ht
  simp only [world, Env.world] at h
  split at h
  · cases h
    exact hu
  · exact hlook h
  · split at h
    · cases h
      exact hu
    · exact hlook h

theorem within_of_callee {callee : Callee} {t : TemplateRef} (hu : S.units a.unit)
    (h : a.callee S.world callee = .ok (some t)) : t.Within S.units := by
  cases callee with
  | template i name =>
    rw [Activation.callee] at h
    cases ht : S.world.template a.unit a.template.name i name with
    | error e =>
      rw [ht] at h
      cases h
    | ok u =>
      rw [ht] at h
      cases h
      exact within_of_template hu ht
  | delegate name v allowEmpty =>
    obtain ⟨v, -, h⟩ := Except.bind_ok_iff.1 h
    split at h
    · rename_i hl
      cases h
      exact S.confines.delegate _ _ _ hl
    · cases allowEmpty <;> cases h

theorem Sound.call (h : S.Sound p a) {op : Op} (ho : a.template.procedure.ops[p]? = some op)
    {out : Output} {t : TemplateRef} {frames : Option Frames} {params : Record} {q : Nat}
    (hact : a.action S.world p op = .ok (.call out t frames params q b)) :
    t.Within S.units ∧ Record.All S.Fits params ∧ ∀ f, frames = some f → S.Resumes t f := by
  obtain ⟨-, ⟨point, callee, base, args, rfl⟩, ⟨rfl, -⟩ | ⟨point, c, cs, hw, rfl, rfl, rfl, -⟩⟩ :=
    (h.changes ho hact).call _ _ _ _ _ _ rfl
  · obtain ⟨r, hr, hq, ht⟩ := Activation.action_call hact
    have hsafe := h.placed.flow.safe _ _ ho
    have hbears : ∀ c ∈ (Op.call point out callee base args).codes,
        c.Bears (fun _ => True) S.Fits := fun c hc => (hsafe.reads c hc).bears _
    simp only [Op.codes, List.mem_append] at hbears
    have hall := Activation.base_closed h.supply h.params (fun c hc => hbears c (.inl (.inl hc))) hr
    exact ⟨within_of_callee h.unit ht,
      Activation.withArgs_closed h.supply hall (fun c hc => hbears c (.inl (.inr hc))) hq,
      fun f hf => (by cases hf)⟩
  · have hk := h.keeps _ _ hw
    refine ⟨(hk c List.mem_cons_self).within, (hk c List.mem_cons_self).params, ?_⟩
    rintro f ⟨⟩
    exact ⟨(h.placed.action ho hact).2.2 _ _ _ _ _ _ rfl _ rfl,
      (hk c List.mem_cons_self).saves, fun d hd => hk d (List.mem_cons_of_mem _ hd)⟩

end Setting

end ResumableTemplates
