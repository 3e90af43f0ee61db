import ResumableTemplates.Proofs.Render.Saved

/-! Work that starts alike leads to the same. So a restored activation, in which only live slots hold
what the stopped one held, writes what that would have written; and a lazy value in a record counts
for no more than what it comes down to. -/
namespace ResumableTemplates

theorem Supply.trivial (w : World) (a : Activation) :
    Supply (fun _ => True) (fun _ => True) w a where
  closed := ⟨fun _ => True.intro, fun _ _ => True.intro, fun _ _ => True.intro,
    fun _ => True.intro, fun _ _ => True.intro, fun _ => True.intro⟩
  slots := fun _ _ _ => True.intro
  injected := fun _ _ => True.intro

theorem Activation.action_changes' {w : World} {a : Activation} {p : Nat} {op : Op} {act : Action}
    (h : a.action w p op = .ok act) :
    act.Changes (fun _ => True) op p a :=
  action_changes (.trivial w a) (fun c _ d _ => by cases d <;> exact True.intro) h

section Certified

variable {defers : Prop} {lib : Library} {known : Nat → String → UInt64 → Prop}
  {cert : Certificate lib known}

theorem Activation.Placed.action {w : World} {a : Activation} {p : Nat} {op : Op} {act : Action}
    (hp : a.Placed cert p) (ho : a.template.procedure.ops[p]? = some op)
    (h : a.action w p op = .ok act) :
    act.next.Placed cert act.position ∧ act.next.waiting = none ∧
      ∀ out t frames params q b, act = .call out t frames params q b → ∀ f, frames = some f →
        FramesSound cert t f.outer f.calls := by
  have hch := Activation.action_changes' h
  have hnone : act.next.waiting = none := by
    obtain hw | ⟨point, c, cs, out, callee, base, args, hw, hop, -⟩ := hp.waiting
    · exact hch.changed.waiting.elim (fun he => he.trans hw) id
    · cases ho.symm.trans hop
      rw [Activation.action_of_waiting (Activation.waitingAt?_of_waiting hw)] at h
      cases h
      rfl
  refine ⟨⟨?_, .inl hnone⟩, hnone, ?_⟩
  · rw [hch.changed.unit, hch.changed.template]
    exact hp.template
  · rintro out t frames params q b he f rfl
    obtain ⟨-, -, ⟨hf, -⟩ | ⟨point, c, cs, hw, rfl, hf, -, -⟩⟩ := hch.call _ _ _ _ _ _ he
    · cases hf
    · cases hf
      obtain hn | ⟨_, c', cs', _, _, _, _, hw', -, hs⟩ := hp.waiting
      · rw [hw] at hn
        cases hn
      · rw [hw] at hw'
        cases hw'
        exact hs

theorem Activation.Placed.le_flow {w : World} {a : Activation} {p : Nat} {op : Op} {act : Action}
    (hp : a.Placed cert p) (ho : a.template.procedure.ops[p]? = some op)
    (h : a.action w p op = .ok act) {Γ : Typing}
    (hmem : (act.position, Γ) ∈ op.flows p (a.notes cert p)) :
    (act.next.notes cert act.position).Le Γ := by
  have hch := Activation.action_changes' h
  rw [Activation.notes, hch.changed.unit, hch.changed.template]
  exact hp.flow.flows _ _ ho _ _ hmem

variable (defers cert)

inductive Work.Alike : Work → Work → Prop
  | template : (∀ f, frames = some f → FramesSound cert t f.outer f.calls) →
      Record.Alike defers r q → Alike (.template t frames r) (.template t frames q)
  | ops : a.Alike defers (a.notes cert p) b → a.Placed cert p → Alike (.ops p a) (.ops p b)
  | op : a.Alike defers (a.notes cert p) b → a.Placed cert p → Alike (.op p a) (.op p b)

inductive End.Alike : End → End → Prop
  | done : Alike .done .done
  | failed : Alike (.failed e) (.failed e)
  | on : a.Alike defers (a.notes cert p) b → a.Placed cert p → Alike (.on p a) (.on p b)

variable {defers} {w x : World} {Q : RenderError → Prop}

theorem World.fresh_changed (cert : Certificate lib known) {unit : Nat} {name : String}
    {t : CompiledTemplate} {r : Record} {a : Activation} (hc : lib.compiled? unit name = some t) (h : w.fresh unit t r = .ok a) :
    a.unit = unit ∧ a.template = t ∧ a.params = r ∧ a.waiting = none := by
  have := Activation.start_changed (P := fun _ => True) (cert.flow _ _ _ hc)
    (fun _ _ => True.intro) (fun _ _ => True.intro) (fun _ _ => True.intro) h
  exact ⟨this.unit, this.template, this.params, this.waiting.elim id id⟩

theorem World.fresh_placed (cert : Certificate lib known) {unit : Nat} {name : String}
    {t : CompiledTemplate} {r : Record} {a : Activation} (hc : lib.compiled? unit name = some t)
    (h : w.fresh unit t r = .ok a) :
    a.Placed cert 0 ∧ (a.notes cert 0).Le t.procedure.filled := by
  obtain ⟨hu, ht, -, hwait⟩ := World.fresh_changed cert hc h
  refine ⟨⟨?_, .inl hwait⟩, ?_⟩
  · rw [hu, ht, Library.name_of_compiled? hc]
    exact hc
  · rw [Activation.notes, hu, ht, Library.name_of_compiled? hc]
    exact (cert.flow _ _ _ hc).start

theorem Activation.received_changed {P : Value → Prop} {slots : List Nat} {a b : Activation}
    {out : Output} {deeds : List Deed} (hs : ∀ slot, out = .buffer slot → slot ∈ slots)
    (h : a.received deeds out = .ok b) : a.Changed P slots b := by
  cases out with
  | sink =>
    cases h
    exact .refl
  | buffer slot =>
    obtain ⟨s, -, h⟩ := Except.bind_ok_iff.1 h
    exact Activation.set_changed h (hs slot rfl) fun v hv => by cases hv

theorem Leads.on_changed (room : Nat → Prop) (P : Value → Prop) {w : World} {d p q : Nat}
    {a b : Activation} {deeds : List Deed} (h : Leads w d (.op p a) deeds (.on q b)) :
    ∃ op, a.template.procedure.ops[p]? = some op ∧ (Supply room P w a →
      (∀ c ∈ op.stored, c.Bears room P) → a.Changed P op.writes b ∧ q ∈ op.targets p) := by
  cases h with
  | goto ho ha =>
    refine ⟨_, ho, fun hs hc => ?_⟩
    have := Activation.action_changes hs hc ha
    exact ⟨this.changed, this.target⟩
  | write ho ha =>
    refine ⟨_, ho, fun hs hc => ?_⟩
    have := Activation.action_changes hs hc ha
    exact ⟨this.changed, this.target⟩
  | called ho ha _ _ hr =>
    refine ⟨_, ho, fun hs hc => ?_⟩
    have := Activation.action_changes hs hc ha
    obtain ⟨-, ⟨_, _, _, _, rfl⟩, -⟩ := this.call _ _ _ _ _ _ rfl
    refine ⟨this.changed.trans (Activation.received_changed ?_ hr), this.target⟩
    rintro slot rfl
    exact List.mem_cons_self

theorem Leads.on_same {w : World} {d p q : Nat} {a b : Activation} {deeds : List Deed}
    (h : Leads w d (.op p a) deeds (.on q b)) :
    b.unit = a.unit ∧ b.template = a.template ∧ b.params = a.params := by
  obtain ⟨op, -, hch⟩ := h.on_changed (fun _ => True) fun _ => True
  obtain ⟨hc, -⟩ := hch (.trivial w a) fun c _ d _ => by cases d <;> exact True.intro
  exact ⟨hc.unit, hc.template, hc.params⟩

theorem Activation.received_ok {Γ : Typing} {a : Activation} {out : Output}
    (h : a.Alike defers Γ a) (ho : out.Safe Γ) (deeds : List Deed) :
    ∃ b, a.received deeds out = .ok b := by
  cases out with
  | sink => exact ⟨a, rfl⟩
  | buffer slot =>
    obtain ⟨s, ha, -⟩ := h.buffer ho
    have hlt : slot < a.locals.size := h.size ▸ h.lt_size ho
    simp only [Activation.received, Activation.buffer, ha, Except.ok_bind, Activation.set,
      dif_pos hlt]
    exact ⟨_, rfl⟩

theorem Activation.received_alike {Γ : Typing} {a b c : Activation} {out : Output}
    {deeds : List Deed} (h : a.Alike defers Γ b) (ho : out.Safe Γ) (hc : a.received deeds out = .ok c) :
    ∃ d, b.received deeds out = .ok d ∧ c.Alike defers Γ d ∧ c.unit = a.unit ∧ c.template = a.template ∧
      c.waiting = a.waiting := by
  cases out with
  | sink =>
    cases hc
    exact ⟨b, rfl, h, rfl, rfl, rfl⟩
  | buffer slot =>
    obtain ⟨s, ha, hb⟩ := h.buffer ho
    simp only [Activation.received, Activation.buffer, ha, Except.ok_bind] at hc
    have hset := h.set (Q := fun _ => True) (h.lt_size ho) (some .buffer)
      (l := .buffer (s ++ String.join (Deed.texts deeds))) (k := .buffer (s ++ String.join (Deed.texts deeds)))
      fun ty hty => by cases hty; exact .buffer
    obtain ⟨d, hd, hcd, -⟩ := hset.ok hc
    refine ⟨d, ?_, hcd.weaken fun n type hn => ?_, ?_⟩
    · simp only [Activation.received, Activation.buffer, hb, Except.ok_bind, hd]
    · by_cases hns : n = slot
      · subst hns
        rw [Typing.set_same, ← hn]
        exact ho.symm
      · rwa [Typing.set_other _ _ hns]
    · unfold Activation.set at hc
      split at hc <;> cases hc
      exact ⟨rfl, rfl, rfl⟩

variable {cert}

theorem Activation.Placed.action_alike {a b : Activation} {p : Nat} {op : Op}
    (hp : a.Placed cert p) (ho : a.template.procedure.ops[p]? = some op) (hw : w.Alike defers x)
    (hab : a.Alike defers (a.notes cert p) b) (hQ : w.Tolerates Q known) :
    Paired Q (Action.Alike defers (op.flows p (a.notes cert p))) (a.action w p op) (b.action x p op) :=
  Activation.action_alike ⟨hw, hab, hQ⟩ (hp.flow.safe _ _ ho)

theorem Activation.Placed.seeks_alike {a b : Activation} {p : Nat} {op : Op}
    (hp : a.Placed cert p) (ho : a.template.procedure.ops[p]? = some op) (hw : w.Alike defers x)
    (hab : a.Alike defers (a.notes cert p) b) (hQ : w.Tolerates Q known) :
    a.seeks w op = b.seeks x op :=
  Activation.seeks_alike ⟨hw, hab, hQ⟩ (hp.flow.safe _ _ ho)

theorem World.fresh_alike (cert : Certificate lib known) (hw : w.Alike defers x) {unit : Nat}
    {name : String} {t : CompiledTemplate} {r q : Record} {a : Activation}
    (hc : lib.compiled? unit name = some t) (hr : Record.Alike defers r q)
    (hm : defers → ∀ p ∈ t.procedure.params, ¬ p.Misses w.injected r) (ha : w.fresh unit t r = .ok a) :
    ∃ b, x.fresh unit t q = .ok b ∧ a.Alike defers t.procedure.filled b := by
  obtain ⟨a', b, ha', hb, hab⟩ := Activation.start_alike (cert.flow _ _ _ hc) hw.injected hr unit
    (fun _ => false) (fun _ => false) hm
  cases ha.symm.trans ha'
  exact ⟨b, hb, hab⟩

theorem Activation.Placed.call_alike {a b c : Activation} {p q : Nat} {op : Op} {out : Output}
    {t : TemplateRef} {frames : Option Frames} {r : Record} (hp : a.Placed cert p)
    (ho : a.template.procedure.ops[p]? = some op) (hw : w.Alike defers x)
    (hab : a.Alike defers (a.notes cert p) b) (hQ : w.Tolerates Q known)
    (h : a.action w p op = .ok (.call out t frames r q c)) :
    ∃ s d Γ, b.action x p op = .ok (.call out t frames s q d) ∧
      Work.Alike defers cert (.template t frames r) (.template t frames s) ∧
        (q, Γ) ∈ op.flows p (a.notes cert p) ∧ c.Alike defers Γ d ∧ out.Safe Γ := by
  obtain ⟨-, -, hsound⟩ := hp.action ho h
  obtain ⟨act, hb, halike⟩ := (hp.action_alike ho hw hab hQ).ok h
  cases halike with
  | call hmem hcd hout hrec =>
    exact ⟨_, _, _, hb, .template (hsound _ _ _ _ _ _ rfl) hrec, hmem, hcd, hout⟩

/-- Works that start alike do the same and lead to ends that are alike, where no null that is
deferred keeps a parameter from its default. -/
theorem Leads.alike (hw : w.Alike defers x) (hlib : w.library = lib) (hQ : w.Tolerates Q known)
    {d : Nat} {j j' : Work} {deeds : List Deed} {e : End} (h : Leads w d j deeds e)
    (hj : Work.Alike defers cert j j')
    (hm : defers → ∀ t r, Enters w d j t r → ∀ p ∈ t.procedure.params, ¬ p.Misses w.injected r) :
    ∃ e', Leads x d j' deeds e' ∧ End.Alike defers cert e e' ∧ ∀ err, e = .failed err → Q err := by
  -- By induction on what the first work leads to: each step of it has a step of the second beside it,
  -- from activations that are alike as far as the certificate of their template tells.
  induction h generalizing j' with
  | missing hc =>
    cases hj with
    | template _ _ =>
      refine ⟨_, .missing (hw.library ▸ hc), .failed, fun err he => ?_⟩
      cases he
      exact hQ.other _ rfl
  | noHost hi =>
    cases hj with
    | template _ _ =>
      refine ⟨_, .noHost (hw.library ▸ hi), .failed, fun err he => ?_⟩
      cases he
      exact hQ.other _ rfl
  | host hi =>
    cases hj with
    | template _ _ => exact ⟨_, .host (hw.library ▸ hi), .done, fun err he => (by cases he)⟩
  | fresh hc ha _ ih =>
    cases hj with
    | @template _ _ _ q hs hr =>
      rw [hlib] at hc
      obtain ⟨b, hb, hab⟩ := World.fresh_alike cert hw hc hr
        (fun hd => hm hd _ _ (.self (hlib ▸ hc))) ha
      obtain ⟨hpl, hle⟩ := World.fresh_placed cert hc ha
      obtain ⟨e', h', he⟩ := ih (.ops (hab.weaken hle) hpl)
        fun hd t r h => hm hd t r (.fresh (hlib ▸ hc) ha h)
      exact ⟨e', .fresh (hw.library ▸ hlib ▸ hc) hb h', he⟩
  | resumed hc ha hr _ ih =>
    cases hj with
    | template hs hrec =>
      rw [hlib] at hc
      obtain ⟨hu, ht, -, -⟩ := World.fresh_changed cert hc ha
      obtain ⟨b, hb, hab⟩ := World.fresh_alike cert hw hc hrec
        (fun hd => hm hd _ _ (.self (hlib ▸ hc))) ha
      obtain ⟨p, c, d, hrc, hrd, hcd, hpl⟩ :=
        (hs _ rfl).restore (ht ▸ hc) hu (ht ▸ hab)
      cases hr.symm.trans hrc
      obtain ⟨e', h', he⟩ := ih (.ops hcd hpl)
        fun hd t r h => hm hd t r (.resumed (hlib ▸ hc) ha hr h)
      exact ⟨e', .resumed (hw.library ▸ hlib ▸ hc) hb hrd h', he⟩
  | finished ho =>
    cases hj with
    | ops hab _ => exact ⟨_, .finished (hab.template ▸ ho), .done, fun err he => (by cases he)⟩
  | next hop _ ih ih' =>
    cases hj with
    | ops hab hp =>
      obtain ⟨e', h', he, -⟩ := ih (.op hab hp) fun hd t r h => hm hd t r (.here h)
      cases he with
      | on hab' hp' =>
        obtain ⟨e'', h'', he'⟩ := ih' (.ops hab' hp') fun hd t r h => hm hd t r (.next hop h)
        exact ⟨e'', .next h' h'', he'⟩
  | stopped _ ih =>
    cases hj with
    | ops hab hp =>
      obtain ⟨e', h', he, hq⟩ := ih (.op hab hp) fun hd t r h => hm hd t r (.here h)
      cases he with
      | failed => exact ⟨_, .stopped h', .failed, hq⟩
  | failed ho ha =>
    cases hj with
    | op hab hp =>
      have hact := hp.action_alike ho hw hab hQ
      rw [hp.seeks_alike ho hw hab hQ]
      obtain ⟨hb, hq⟩ := hact.error ha
      refine ⟨_, .failed (hab.template ▸ ho) hb, .failed, fun err he => ?_⟩
      cases he
      exact hq
  | goto ho ha =>
    cases hj with
    | op hab hp =>
      have hact := hp.action_alike ho hw hab hQ
      rw [hp.seeks_alike ho hw hab hQ]
      obtain ⟨act, hb, halike⟩ := hact.ok ha
      cases halike with
      | goto hmem hab' =>
        exact ⟨_, .goto (hab.template ▸ ho) hb, .on (hab'.weaken (hp.le_flow ho ha hmem))
          (hp.action ho ha).1, fun err he => (by cases he)⟩
  | write ho ha =>
    cases hj with
    | op hab hp =>
      have hact := hp.action_alike ho hw hab hQ
      obtain ⟨act, hb, halike⟩ := hact.ok ha
      cases halike with
      | write hmem hab' =>
        exact ⟨_, .write (hab.template ▸ ho) hb, .on (hab'.weaken (hp.le_flow ho ha hmem))
          (hp.action ho ha).1, fun err he => (by cases he)⟩
  | tooDeep ho ha hd =>
    cases hj with
    | op hab hp =>
      obtain ⟨s, b', Γ, hb, -⟩ := hp.call_alike ho hw hab hQ ha
      rw [hp.seeks_alike ho hw hab hQ, hw.library, hw.maxDepth]
      refine ⟨_, .tooDeep (hab.template ▸ ho) hb (hw.maxDepth ▸ hd), .failed, fun err he => ?_⟩
      cases he
      exact hQ.other _ rfl
  | called ho ha hd _ hr ih =>
    cases hj with
    | op hab hp =>
      obtain ⟨s, b', Γ, hb, halike, hmem, hab', hout⟩ := hp.call_alike ho hw hab hQ ha
      rw [hp.seeks_alike ho hw hab hQ]
      obtain ⟨hpl, hnone, -⟩ := hp.action ho ha
      obtain ⟨e', h', he, -⟩ := ih halike fun hd' t r h => hm hd' t r (.call ho ha hd h)
      cases he
      obtain ⟨c', hr', hcc, hu, ht, hwait⟩ := Activation.received_alike hab' hout hr
      refine ⟨_, .called (hab.template ▸ ho) hb (hw.maxDepth ▸ hd) h' hr',
        .on (hcc.weaken ?_) ⟨?_, .inl (hwait.trans hnone)⟩, fun err he => (by cases he)⟩
      · rw [Activation.notes, hu, ht]
        exact hp.le_flow ho ha hmem
      · rw [hu, ht]
        exact hpl.template
  | callFailed ho ha hd _ ih =>
    cases hj with
    | op hab hp =>
      obtain ⟨s, b', Γ, hb, halike, -⟩ := hp.call_alike ho hw hab hQ ha
      rw [hp.seeks_alike ho hw hab hQ]
      obtain ⟨e', h', he, hq⟩ := ih halike fun hd' t r h => hm hd' t r (.call ho ha hd h)
      cases he
      exact ⟨_, .callFailed (hab.template ▸ ho) hb (hw.maxDepth ▸ hd) h', .failed, hq⟩

end Certified

end ResumableTemplates
