import ResumableTemplates.Proofs.Procedure.Effect

/-! Certificates of compiled templates: a typing for every position, with each op safe at its own and
leading only to typings that its flow bears out. What a position's typing tells of is filled by the
header or is live at the resume point there, so an activation can be stopped and restored. -/
namespace ResumableTemplates

def Procedure.header (p : Procedure) : Nat := p.params.length + p.state.length

def Procedure.filled (p : Procedure) : Typing := fun n =>
  if n < p.header then some .value else none

/-- A certificate of a compiled template. -/
structure Flow (known : String → UInt64 → Prop) (t : CompiledTemplate) (notes : Nat → Typing) :
    Prop where
  header : t.procedure.params.map (·.slot) ++ t.procedure.state.map (·.slot) =
    List.range t.procedure.header
  room : t.procedure.header ≤ t.procedure.layout.size
  defaults : ∀ b ∈ t.procedure.params, ∀ v, b.default = some v → v.IsPlain
  state : ∀ b ∈ t.procedure.state, b.value.IsPlain
  start : (notes 0).Le t.procedure.filled
  values : ∀ p n type, notes p n = some type → n < t.procedure.header → type = .value
  safe : ∀ (p : Nat) (op : Op), t.procedure.ops[p]? = some op →
    op.Safe known t.procedure.layout.size (notes p)
  flows : ∀ (p : Nat) (op : Op), t.procedure.ops[p]? = some op → ∀ q Γ, (q, Γ) ∈ op.flows p (notes p) →
    (notes q).Le Γ
  points : ∀ (p : Nat) (op : Op) (point : Nat), t.procedure.ops[p]? = some op → op.point? = some point →
    ∃ live, t.procedure.points[point]? = some ⟨p, live⟩ ∧
      (∀ n ∈ live, t.procedure.header ≤ n ∧ n < t.procedure.layout.size) ∧
        ∀ n type, notes p n = some type → n < t.procedure.header ∨ n ∈ live
  writes : ∀ (p : Nat) (op : Op), t.procedure.ops[p]? = some op → ∀ n ∈ op.writes, t.procedure.header ≤ n

/-- Certificates of all templates of a library. -/
structure Certificate (lib : Library) (known : Nat → String → UInt64 → Prop) where
  notes : (unit : Nat) → (template : String) → (position : Nat) → Typing
  flow : ∀ unit name t, lib.compiled? unit name = some t → Flow (known unit) t (notes unit name)
  ends : ∀ unit name t, lib.compiled? unit name = some t → t.Ends

theorem Library.name_of_compiled? {lib : Library} {unit : Nat} {name : String}
    {t : CompiledTemplate} (h : lib.compiled? unit name = some t) : t.name = name := by
  unfold Library.compiled? CompiledUnit.template? at h
  obtain ⟨u, -, h⟩ := Option.bind_eq_some_iff.1 h
  simpa using List.find?_some h

section Header

variable {defers : Prop} {i j : Record} {a b : Activation} {Γ : Typing}

def ParamBinding.given (p : ParamBinding) (injected params : Record) : Value :=
  Record.read (if p.isInjected then injected else params) p.name

/-- Holds of a parameter that a provider keeps from its default: null is behind it, for which the default
would have been taken. -/
structure ParamBinding.Misses (p : ParamBinding) (injected params : Record) : Prop where
  isLazy : (p.given injected params).isNull = false
  yields : (p.given injected params).forced = .null
  default : p.default.getD .null ≠ .null

theorem ParamBinding.valueIn_eq (p : ParamBinding) (i r : Record) :
    p.valueIn i r = if (p.given i r).isNull then p.default.getD .null else p.given i r := by
  unfold valueIn given Record.read
  cases Record.field? (if p.isInjected then i else r) p.name <;> rfl

theorem ParamBinding.valueIn_alike (p : ParamBinding) {r q : Record} (hi : Record.Alike defers i j)
    (hr : Record.Alike defers r q) (hp : defers → ¬ p.Misses i r) :
    (p.valueIn i r).Alike defers (p.valueIn j q) := by
  have hgiven : (p.given i r).Alike defers (p.given j q) := by
    unfold ParamBinding.given
    split
    · exact hi.read _
    · exact hr.read _
  rw [p.valueIn_eq, p.valueIn_eq]
  obtain hnull | ⟨hd, hnull⟩ := hgiven.2
  · rw [hnull]
    split
    · exact .refl _
    · exact hgiven
  · rw [if_pos hnull]
    by_cases hv : (p.given i r).isNull
    · rw [if_pos hv]
      exact .refl _
    · have hyields : (p.given i r).forced = .null :=
        hgiven.1.trans (by rw [Value.isNull_iff.1 hnull]; rfl)
      have hdefault : p.default.getD .null = .null :=
        Classical.byContradiction fun hne => hp hd ⟨by simpa using hv, hyields, hne⟩
      rw [if_neg hv, hdefault]
      exact ⟨hyields, .inr ⟨hd, rfl⟩⟩

theorem ParamBinding.valueIn_all {P : Value → Prop} (p : ParamBinding) {r : Record} (hn : P .null)
    (hi : Record.All P i) (hr : Record.All P r) (hd : ∀ v, p.default = some v → P v) :
    P (p.valueIn i r) := by
  rw [p.valueIn_eq]
  split
  · cases hdefault : p.default with
    | none => exact hn
    | some v => exact hd v hdefault
  · unfold ParamBinding.given
    split
    · exact hi.read hn _
    · exact hr.read hn _

theorem Activation.fillParams_alike (hi : Record.Alike defers i j) {ps : List ParamBinding}
    (h : a.Alike defers Γ b) (hs : ∀ p ∈ ps, p.slot < a.template.procedure.layout.size)
    (hm : defers → ∀ p ∈ ps, ¬ p.Misses i a.params) :
    Paired (fun _ => False)
      (fun a' b' => a'.Alike defers ((ps.map (·.slot)).foldl (·.set · (some .value)) Γ) b' ∧
        a'.template = a.template)
      (a.fillParams i ps) (b.fillParams j ps) := by
  induction ps generalizing a b Γ with
  | nil => exact ⟨h, rfl⟩
  | cons p ps ih =>
    rw [Activation.fillParams, Activation.fillParams]
    refine (h.set (hs p List.mem_cons_self) (some .value) fun ty hty => by
      cases hty
      exact .value (p.valueIn_alike hi h.params fun hd => hm hd p List.mem_cons_self)).bind
        fun a' b' ⟨hab, ht, hr⟩ => ?_
    refine (ih hab (fun p hp => ?_) fun hd p hp => ?_).mono fun a'' b'' hab' =>
      ⟨hab'.1, hab'.2.trans ht⟩
    · rw [ht]
      exact hs p (List.mem_cons_of_mem _ hp)
    · rw [hr]
      exact hm hd p (List.mem_cons_of_mem _ hp)

theorem Activation.fillState_alike {ps : List StateBinding} (h : a.Alike defers Γ b)
    (hs : ∀ p ∈ ps, p.slot < a.template.procedure.layout.size) :
    Paired (fun _ => False)
      (fun a' b' => a'.Alike defers ((ps.map (·.slot)).foldl (·.set · (some .value)) Γ) b' ∧
        a'.template = a.template)
      (a.fillState ps) (b.fillState ps) := by
  induction ps generalizing a b Γ with
  | nil => exact ⟨h, rfl⟩
  | cons p ps ih =>
    rw [Activation.fillState, Activation.fillState]
    refine (h.set (hs p List.mem_cons_self) (some .value) fun ty hty => by
      cases hty
      exact .value (.refl p.value)).bind fun a' b' hab => ?_
    refine (ih hab.1 fun p hp => ?_).mono fun a'' b'' hab' => ⟨hab'.1, hab'.2.trans hab.2.1⟩
    rw [hab.2.1]
    exact hs p (List.mem_cons_of_mem _ hp)

theorem Activation.fillParams_changed {P : Value → Prop} (hn : P .null) (hi : Record.All P i)
    (ha : Record.All P a.params) {ps : List ParamBinding}
    (hd : ∀ p ∈ ps, ∀ v, p.default = some v → P v) (h : a.fillParams i ps = .ok b) :
    a.Changed P (ps.map (·.slot)) b := by
  suffices H : ∀ slots, (∀ p ∈ ps, p.slot ∈ slots) → a.Changed P slots b from
    H _ fun p hp => List.mem_map_of_mem hp
  intro slots hslots
  induction ps generalizing a with
  | nil =>
    cases h
    exact .refl
  | cons p ps ih =>
    rw [Activation.fillParams] at h
    obtain ⟨c, hc, h⟩ := Except.bind_ok_iff.1 h
    have hP := p.valueIn_all hn hi ha (hd p List.mem_cons_self)
    have hac : a.Changed P slots c := Activation.set_changed hc (hslots p List.mem_cons_self)
      fun v hv => by cases hv; exact hP
    refine hac.trans (ih (hac.params ▸ ha) ?_ h ?_)
    · exact fun p hp => hd p (List.mem_cons_of_mem _ hp)
    · exact fun p hp => hslots p (List.mem_cons_of_mem _ hp)

theorem Activation.fillState_changed {P : Value → Prop} {ps : List StateBinding}
    (hd : ∀ p ∈ ps, P p.value) (h : a.fillState ps = .ok b) :
    a.Changed P (ps.map (·.slot)) b := by
  suffices H : ∀ slots, (∀ p ∈ ps, p.slot ∈ slots) → a.Changed P slots b from
    H _ fun p hp => List.mem_map_of_mem hp
  intro slots hslots
  induction ps generalizing a with
  | nil =>
    cases h
    exact .refl
  | cons p ps ih =>
    rw [Activation.fillState] at h
    obtain ⟨c, hc, h⟩ := Except.bind_ok_iff.1 h
    have hac : a.Changed P slots c := Activation.set_changed hc (hslots p List.mem_cons_self)
      fun v hv => by cases hv; exact hd p List.mem_cons_self
    refine hac.trans (ih ?_ h ?_)
    · exact fun p hp => hd p (List.mem_cons_of_mem _ hp)
    · exact fun p hp => hslots p (List.mem_cons_of_mem _ hp)

theorem Typing.foldl_set {slots : List Nat} (Γ : Typing) (n : Nat) (hn : n ∈ slots) :
    slots.foldl (·.set · (some .value)) Γ n = some .value := by
  have keep : ∀ (slots : List Nat) (Γ : Typing), Γ n = some .value →
      slots.foldl (·.set · (some .value)) Γ n = some .value := by
    intro slots
    induction slots with
    | nil => exact fun Γ h => h
    | cons s slots ih =>
      intro Γ h
      refine ih _ ?_
      by_cases hns : n = s
      · subst hns
        exact Γ.set_same _ _
      · exact (Γ.set_other _ hns).trans h
  induction slots generalizing Γ with
  | nil => cases hn
  | cons s slots ih =>
    cases hn with
    | head => exact keep slots _ (Γ.set_same _ _)
    | tail _ hn => exact ih _ hn

variable {known : String → UInt64 → Prop} {t : CompiledTemplate} {notes : Nat → Typing}

theorem Flow.slot_lt (hf : Flow known t notes) {n : Nat}
    (hn : n ∈ t.procedure.params.map (·.slot) ++ t.procedure.state.map (·.slot)) :
    n < t.procedure.header := by
  rw [hf.header] at hn
  exact List.mem_range.1 hn

theorem Procedure.of_filled {p : Procedure} {n : Nat} {type : SlotType}
    (h : p.filled n = some type) : type = .value ∧ n < p.header := by
  unfold Procedure.filled at h
  split at h
  · cases h
    exact ⟨rfl, ‹_›⟩
  · cases h

/-- Fresh activations for records that are alike are alike, where no null that is deferred keeps a
parameter from its default. -/
theorem Activation.start_alike (hf : Flow known t notes) {r q : Record} (hi : Record.Alike defers i j)
    (hr : Record.Alike defers r q) (unit : Nat) (held held' : TemplateRef → Bool)
    (hm : defers → ∀ p ∈ t.procedure.params, ¬ p.Misses i r) :
    ∃ a b, Activation.start i unit t r held = .ok a ∧
      Activation.start j unit t q held' = .ok b ∧ a.Alike defers t.procedure.filled b := by
  let a₀ : Activation := ⟨unit, t, r, Array.replicate t.procedure.layout.size .unset, none, held⟩
  let b₀ : Activation := ⟨unit, t, q, Array.replicate t.procedure.layout.size .unset, none, held'⟩
  have h₀ : a₀.Alike defers (fun _ => none) b₀ :=
    ⟨rfl, rfl, hr, rfl, by simp [a₀], by simp [a₀, b₀], fun _ _ h => (by cases h)⟩
  have hroom : ∀ n ∈ t.procedure.params.map (·.slot) ++ t.procedure.state.map (·.slot),
      n < t.procedure.layout.size := fun n hn => Nat.lt_of_lt_of_le (hf.slot_lt hn) hf.room
  have hfill : Paired (fun _ => False)
      (fun a b => a.Alike defers ((t.procedure.state.map (·.slot)).foldl (·.set · (some .value))
        ((t.procedure.params.map (·.slot)).foldl (·.set · (some .value)) fun _ => none)) b)
      (Activation.start i unit t r held) (Activation.start j unit t q held') := by
    refine (fillParams_alike hi h₀ (fun p hp => ?_) hm).bind fun a b hab => ?_
    · exact hroom _ (List.mem_append_left _ (List.mem_map_of_mem hp))
    · refine (fillState_alike hab.1 fun p hp => ?_).mono fun _ _ h => h.1
      rw [hab.2]
      exact hroom _ (List.mem_append_right _ (List.mem_map_of_mem hp))
  cases ha : Activation.start i unit t r held with
  | error e => exact (hfill.error ha).2.elim
  | ok a =>
    obtain ⟨b, hb, hab⟩ := hfill.ok ha
    refine ⟨a, b, rfl, hb, hab.weaken fun n type hn => ?_⟩
    obtain ⟨rfl, hlt⟩ := Procedure.of_filled hn
    have hmem : n ∈ t.procedure.params.map (·.slot) ++ t.procedure.state.map (·.slot) := by
      rw [hf.header]
      exact List.mem_range.2 hlt
    rw [← List.foldl_append]
    exact Typing.foldl_set _ n hmem

theorem Activation.start_ok (hf : Flow known t notes) (i r : Record) (unit : Nat)
    (held : TemplateRef → Bool) :
    ∃ a, Activation.start i unit t r held = .ok a ∧ a.Alike False t.procedure.filled a := by
  obtain ⟨a, b, ha, hb, hab⟩ := start_alike hf (.refl i) (.refl r) unit held held False.elim
  cases ha.symm.trans hb
  exact ⟨a, ha, hab⟩

theorem Activation.start_changed (hf : Flow known t notes) {r : Record} {unit : Nat}
    {held : TemplateRef → Bool} {P : Value → Prop} (hi : Record.All P i) (hr : Record.All P r)
    (hP : ∀ v, v.IsPlain → P v) (h : Activation.start i unit t r held = .ok a) :
    Changed P (List.range t.procedure.header)
      ⟨unit, t, r, Array.replicate t.procedure.layout.size .unset, none, held⟩ a := by
  obtain ⟨b, hb, h⟩ := Except.bind_ok_iff.1 h
  have hab := fillParams_changed (hP .null trivial) hi hr (fun p hp v hv =>
    hP v (hf.defaults p hp v hv)) hb
  have hba := fillState_changed (P := P) (fun p hp => hP _ (hf.state p hp)) h
  rw [← hf.header]
  exact (hab.mono fun n hn => List.mem_append_left _ hn).trans
    (hba.mono fun n hn => List.mem_append_right _ hn)

end Header

end ResumableTemplates
