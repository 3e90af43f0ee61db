import ResumableTemplates.Proofs.Procedure.Flow

/-! Saved renders. What is saved at a resume point is sound if an activation that fits the typing
there has been stopped; such a save passes every check of a restore, and the restored activation
holds again what the stopped one held. -/
namespace ResumableTemplates

namespace Activation

variable {a b : Activation}

theorem set_isHeld (held : TemplateRef → Bool) (a : Activation) (slot : Nat) (l : Local) :
    set { a with isHeld := held } slot l =
      (a.set slot l).map fun b => { b with isHeld := held } := by
  unfold set
  split <;> rfl

theorem fillParams_isHeld (held : TemplateRef → Bool) (i : Record) (ps : List ParamBinding)
    (a : Activation) : fillParams i { a with isHeld := held } ps =
      (fillParams i a ps).map fun b => { b with isHeld := held } := by
  induction ps generalizing a with
  | nil => rfl
  | cons p ps ih =>
    rw [fillParams, fillParams, set_isHeld]
    cases a.set p.slot (.value (p.valueIn i a.params)) with
    | error e => rfl
    | ok b => exact ih b

theorem fillState_isHeld (held : TemplateRef → Bool) (ps : List StateBinding) (a : Activation) :
    fillState { a with isHeld := held } ps =
      (fillState a ps).map fun b => { b with isHeld := held } := by
  induction ps generalizing a with
  | nil => rfl
  | cons p ps ih =>
    rw [fillState, fillState, set_isHeld]
    cases a.set p.slot (.value p.value) with
    | error e => rfl
    | ok b => exact ih b

theorem start_isHeld (i : Record) (unit : Nat) (t : CompiledTemplate) (params : Record)
    (held held' : TemplateRef → Bool) : start i unit t params held' =
      (start i unit t params held).map fun b => { b with isHeld := held' } := by
  unfold start
  have := fillParams_isHeld held' i t.procedure.params
    ⟨unit, t, params, Array.replicate t.procedure.layout.size .unset, none, held⟩
  simp only at this ⊢
  rw [this]
  cases fillParams i ⟨unit, t, params, Array.replicate t.procedure.layout.size .unset, none, held⟩
    t.procedure.params with
  | error e => rfl
  | ok b => exact fillState_isHeld held' t.procedure.state b

theorem putBack_saved (f : Nat → Local) (live : List Nat) (h : ∀ n ∈ live, n < a.locals.size) :
    ∃ b, a.putBack (live.zip (live.map f)) = .ok b ∧ b.unit = a.unit ∧ b.template = a.template ∧
      b.params = a.params ∧ b.waiting = a.waiting ∧ b.isHeld = a.isHeld ∧
      b.locals.size = a.locals.size ∧
      ∀ n : Nat, b.locals[n]? = if n ∈ live then some (f n) else a.locals[n]? := by
  induction live generalizing a with
  | nil => exact ⟨a, rfl, rfl, rfl, rfl, rfl, rfl, rfl, fun n => by simp⟩
  | cons m live ih =>
    have hm : m < a.locals.size := h m List.mem_cons_self
    obtain ⟨b, hb, hu, ht, hp, hw, hh, hs, hl⟩ := ih (a := { a with locals := a.locals.set m (f m) })
      fun n hn => by simpa using h n (List.mem_cons_of_mem _ hn)
    refine ⟨b, ?_, hu, ht, hp, hw, hh, by simpa using hs, fun n => ?_⟩
    · rw [List.map_cons, List.zip_cons_cons, putBack, set, dif_pos hm]
      exact hb
    · rw [hl n]
      by_cases hn : n ∈ live
      · simp [hn]
      · by_cases hnm : n = m
        · subst hnm
          simp [hm]
        · simp [hn, hnm, Ne.symm hnm]

theorem restore_eq {name : String} {point p : Nat} {live : List Nat} (f : Nat → Local)
    (calls : List PendingCall) (hname : a.template.name = name)
    (hpoint : a.template.procedure.points[point]? = some ⟨p, live⟩)
    (hlive : ∀ n ∈ live, n < a.locals.size) :
    ∃ b, a.restore ⟨⟨name, point, live.map f⟩, calls⟩ = .ok (p, b) ∧ b.unit = a.unit ∧
      b.template = a.template ∧ b.params = a.params ∧ b.locals.size = a.locals.size ∧
      b.waiting = (if calls.isEmpty then none else some (point, calls)) ∧
      ∀ n : Nat, b.locals[n]? = if n ∈ live then some (f n) else a.locals[n]? := by
  obtain ⟨b, hb, hu, ht, hp, -, -, hs, hl⟩ := putBack_saved (a := a) f live hlive
  refine ⟨{ b with waiting := if calls.isEmpty then none else some (point, calls) }, ?_, hu, ht, hp,
    hs, rfl, hl⟩
  simp only [restore, hname, hpoint, List.length_map, ne_eq, not_true_eq_false, if_false]
  rw [hb]
  rfl

end Activation

section Certified

variable {lib : Library} {known : Nat → String → UInt64 → Prop} (cert : Certificate lib known)

/-- Holds of what is saved of a template that was stopped, inside a call if `inCall` does. -/
def SavedActivation.Sound (t : TemplateRef) (inCall : Bool) (s : SavedActivation) : Prop :=
  match t with
  | .host _ => True
  | .compiled unit name => ∀ c, lib.compiled? unit name = some c →
    ∃ (p : Nat) (live : List Nat) (op : Op) (a : Activation),
      s.template = name ∧ c.procedure.points[s.point]? = some ⟨p, live⟩ ∧
      c.procedure.ops[p]? = some op ∧ op.point? = some s.point ∧ (inCall → op.IsCall) ∧
      a.template = c ∧ a.Alike False (cert.notes unit name p) a ∧
      s.locals = live.map (a.locals.getD · .unset)

def FramesSound : TemplateRef → SavedActivation → List PendingCall → Prop
  | t, s, [] => s.Sound cert t false
  | t, s, c :: cs => s.Sound cert t true ∧ FramesSound c.callee c.saved cs

/-- Holds of the activations at a position that are of a template of the library, with a sound save
for the op there if for any. -/
structure Activation.Placed (p : Nat) (a : Activation) : Prop where
  template : lib.compiled? a.unit a.template.name = some a.template
  waiting : a.waiting = none ∨ ∃ point c cs out callee base args,
    a.waiting = some (point, c :: cs) ∧
    a.template.procedure.ops[p]? = some (.call point out callee base args) ∧
    FramesSound cert c.callee c.saved cs

def Activation.notes (a : Activation) (p : Nat) : Typing := cert.notes a.unit a.template.name p

variable {a b : Activation}

variable {cert} in
theorem Activation.Placed.flow (h : a.Placed cert p) :
    Flow (known a.unit) a.template (cert.notes a.unit a.template.name) :=
  cert.flow _ _ _ h.template

variable {cert} in
theorem FramesSound.outer {t : TemplateRef} {s : SavedActivation} {calls : List PendingCall}
    (h : FramesSound cert t s calls) : s.Sound cert t !calls.isEmpty := by
  cases calls with
  | nil => exact h
  | cons c cs => exact h.1

structure Entry (unit : Nat) (name : String) (t : CompiledTemplate) (s : SavedActivation)
    (calls : List PendingCall) (p : Nat) (live : List Nat) (f : Nat → Local) : Prop where
  template : s.template = name
  point : t.procedure.points[s.point]? = some ⟨p, live⟩
  locals : s.locals = live.map f
  bounds : ∀ n ∈ live, t.procedure.header ≤ n ∧ n < t.procedure.layout.size
  covers : ∀ n type, cert.notes unit name p n = some type → n < t.procedure.header ∨ n ∈ live
  typed : ∀ n type, cert.notes unit name p n = some type → n ∈ live → type.Pairs False (f n) (f n)
  call : calls ≠ [] → ∃ out callee base args,
    t.procedure.ops[p]? = some (.call s.point out callee base args)

variable {cert} in
theorem FramesSound.entry {unit : Nat} {name : String} {t : CompiledTemplate}
    {s : SavedActivation} {calls : List PendingCall}
    (hs : FramesSound cert (.compiled unit name) s calls)
    (hc : lib.compiled? unit name = some t) :
    ∃ p live f, Entry cert unit name t s calls p live f := by
  obtain ⟨p, live, op, stopped, hname, hpoint, hop, hpt, hcall, -, htyped, hlocals⟩ :=
    hs.outer _ hc
  obtain ⟨live', hpoint', hlive, hcover⟩ := (cert.flow _ _ _ hc).points p op s.point hop hpt
  cases hpoint.symm.trans hpoint'
  refine ⟨p, live, (stopped.locals.getD · .unset), hname, hpoint, hlocals, hlive, hcover,
    fun n type hn _ => ?_, fun hne => ?_⟩
  · obtain ⟨l, k, hl, hk, hp⟩ := htyped.slots n type hn
    cases hl.symm.trans hk
    simpa [Array.getD_eq_getD_getElem?, hl] using hp
  · obtain ⟨point, out, callee, base, args, rfl⟩ := hcall (by cases calls <;> simp_all)
    cases hpt
    exact ⟨out, callee, base, args, hop⟩

variable {cert} in
theorem FramesSound.restore {defers : Prop} {unit : Nat} {name : String} {s : SavedActivation}
    {calls : List PendingCall} (hs : FramesSound cert (.compiled unit name) s calls)
    (hc : lib.compiled? unit name = some a.template) (hu : a.unit = unit)
    (ha : a.Alike defers a.template.procedure.filled b) :
    ∃ p a' b', a.restore ⟨s, calls⟩ = .ok (p, a') ∧ b.restore ⟨s, calls⟩ = .ok (p, b') ∧
      a'.Alike defers (a'.notes cert p) b' ∧ a'.Placed cert p := by
  obtain ⟨p, live, f, he⟩ := hs.entry hc
  have hnm : a.template.name = name := Library.name_of_compiled? hc
  have hsave : s = ⟨name, s.point, live.map f⟩ := by
    rw [← he.template, ← he.locals]
  obtain ⟨a', hea, hau, hat, hap, has, haw, hal⟩ := Activation.restore_eq f calls hnm he.point
    fun n hn => ha.size ▸ (he.bounds n hn).2
  obtain ⟨b', heb, hbu, hbt, hbp, hbs, hbw, hbl⟩ := Activation.restore_eq (a := b) f calls
    (ha.template ▸ hnm) (ha.template ▸ he.point) fun n hn => ha.size' ▸ (he.bounds n hn).2
  have hnotes : a'.notes cert p = cert.notes unit name p := by
    simp only [Activation.notes, hau, hu, hat, hnm]
  refine ⟨p, a', b', hsave ▸ hea, hsave ▸ heb, ⟨?_, ?_, ?_, ?_, ?_, ?_, ?_⟩, ⟨?_, ?_⟩⟩
  · rw [hau, hbu, ha.unit]
  · rw [hat, hbt, ha.template]
  · rw [hap, hbp]
    exact ha.params
  · rw [haw, hbw]
  · rw [has, hat, ha.size]
  · rw [hbs, hat, ha.size']
  · intro n type hn
    rw [hnotes] at hn
    rw [hal, hbl]
    by_cases hlv : n ∈ live
    · exact ⟨f n, f n, if_pos hlv, if_pos hlv, (he.typed n type hn hlv).relax⟩
    · have hlt := (he.covers n type hn).resolve_right hlv
      cases (cert.flow _ _ _ hc).values p n type hn hlt
      obtain ⟨l, k, hl, hk, hp⟩ := ha.slots n .value (if_pos hlt)
      exact ⟨l, k, by rw [if_neg hlv, hl], by rw [if_neg hlv, hk], hp⟩
  · rw [hau, hat, hu, hnm]
    exact hc
  · cases calls with
    | nil => exact .inl haw
    | cons c cs =>
      obtain ⟨out, callee, base, args, hop⟩ := he.call (by simp)
      refine .inr ⟨_, c, cs, out, callee, base, args, haw, ?_, hs.2⟩
      rw [hat]
      exact hop

end Certified

end ResumableTemplates
