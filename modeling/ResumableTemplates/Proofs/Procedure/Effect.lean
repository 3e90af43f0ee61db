import ResumableTemplates.Proofs.Procedure.Alike

/-! What an op changes: slots that it sets, and nothing else of its activation. The values that it
leaves there have every property that evaluation keeps. -/
namespace ResumableTemplates

namespace Activation

structure Changed (P : Value → Prop) (slots : List Nat) (a b : Activation) : Prop where
  unit : b.unit = a.unit
  template : b.template = a.template
  params : b.params = a.params
  size : b.locals.size = a.locals.size
  waiting : b.waiting = a.waiting ∨ b.waiting = none
  slot : ∀ n : Nat, b.locals[n]? = a.locals[n]? ∨
    n ∈ slots ∧ ∃ l, b.locals[n]? = some l ∧ ∀ v, l.value? = some v → P v

variable {P : Value → Prop} {slots : List Nat} {a b c : Activation}

theorem Changed.refl : a.Changed P slots a :=
  ⟨rfl, rfl, rfl, rfl, .inl rfl, fun _ => .inl rfl⟩

theorem Changed.none : a.Changed P [] a := .refl

theorem Changed.trans (h : a.Changed P slots b) (h' : b.Changed P slots c) :
    a.Changed P slots c where
  unit := h'.unit.trans h.unit
  template := h'.template.trans h.template
  params := h'.params.trans h.params
  size := h'.size.trans h.size
  waiting := by
    obtain hb | hb := h'.waiting
    · rw [hb]
      exact h.waiting
    · exact .inr hb
  slot n := by
    obtain hb | hb := h'.slot n
    · rw [hb]
      exact h.slot n
    · exact .inr hb

theorem Changed.mono {slots' : List Nat} (h : a.Changed P slots b)
    (hs : ∀ n ∈ slots, n ∈ slots') : a.Changed P slots' b :=
  { h with slot := fun n => (h.slot n).imp id fun ⟨hn, hl⟩ => ⟨hs n hn, hl⟩ }

theorem Changed.other (h : a.Changed P slots b) {n : Nat} (hn : n ∉ slots) :
    b.locals[n]? = a.locals[n]? :=
  (h.slot n).resolve_right fun h' => hn h'.1

theorem Changed.keeps (h : a.Changed P slots b) (ha : a.Keeps P) : b.Keeps P := by
  intro n v hv
  obtain hb | ⟨-, l, hl, hP⟩ := h.slot n
  · exact ha n v (hb ▸ hv)
  · rw [hl] at hv
    exact hP v hv

theorem set_changed {slot : Nat} {l : Local} (hs : a.set slot l = .ok b) (hslot : slot ∈ slots)
    (hl : ∀ v, l.value? = some v → P v) : a.Changed P slots b := by
  unfold set at hs
  split at hs
  · rename_i h
    cases hs
    refine ⟨rfl, rfl, rfl, by simp, .inl rfl, fun n => ?_⟩
    by_cases hn : n = slot
    · subst hn
      exact .inr ⟨hslot, l, by simp [h], hl⟩
    · exact .inl (by simp [Ne.symm hn])
  · cases hs

end Activation

theorem Activation.waiting_of_waitingAt? {a : Activation} {point : Nat} {c : PendingCall}
    {cs : List PendingCall} (h : a.waitingAt? point = some (c, cs)) :
    a.waiting = some (point, c :: cs) := by
  unfold waitingAt? at h
  split at h
  · rename_i hwait
    split at h
    · rename_i heq
      cases h
      rw [hwait, heq]
    · cases h
  · cases h

def Action.next : Action → Activation
  | .goto _ a | .write _ _ a | .call _ _ _ _ _ a => a

def Action.position : Action → Nat
  | .goto p _ | .write _ p _ | .call _ _ _ _ p _ => p

def Op.IsCall (op : Op) : Prop := ∃ point out callee base args, op = .call point out callee base args

theorem Activation.seeks_of_not_isCall (w : World) (a : Activation) {op : Op} (h : ¬ op.IsCall) :
    a.seeks w op = [] := by
  cases op with
  | call point out callee base args => exact absurd ⟨point, out, callee, base, args, rfl⟩ h
  | _ => rfl

def Op.output? : Op → Option Output
  | .text _ out _ | .print _ out _ | .call _ out .. => some out
  | _ => none

def Op.targets (p : Nat) (op : Op) : List Nat := (op.flows p fun _ => none).map (·.1)

def Op.stored : Op → List Code
  | .store _ _ c _ | .forInit _ c .. => [c]
  | _ => []

theorem Op.codes_of_stored {op : Op} {c : Code} (h : c ∈ op.stored) : c ∈ op.codes := by
  cases op <;> first | exact h | cases h

/-- Holds if an action goes on as its op says: with a change of the slots that the op sets, at one of
its targets. Only ops that can pause write to the sink, and only calls call; a call is the one under
way if there are frames to go on from. -/
structure Action.Changes (P : Value → Prop) (op : Op) (p : Nat) (a : Activation) (act : Action) :
    Prop where
  changed : a.Changed P op.writes act.next
  target : act.position ∈ op.targets p
  write : ∀ text q b, act = .write text q b →
    b = a ∧ op.point? ≠ none ∧ op.output? = some .sink ∧ ¬ op.IsCall
  call : ∀ out t frames params q b, act = .call out t frames params q b → q = p + 1 ∧
    (∃ point callee base args, op = .call point out callee base args) ∧
      (frames = none ∧ b = a ∨ ∃ point c cs, a.waiting = some (point, c :: cs) ∧
        t = c.callee ∧ frames = some ⟨c.saved, cs⟩ ∧ params = c.params ∧
        b = { a with waiting := none })

theorem Action.Changes.goto {P : Value → Prop} {op : Op} {p : Nat} {a b : Activation} {q : Nat}
    (h : a.Changed P op.writes b) (hq : q ∈ op.targets p) :
    (Action.goto q b).Changes P op p a :=
  ⟨h, hq, fun _ _ _ h => (by cases h), fun _ _ _ _ _ _ h => (by cases h)⟩

section

variable {room : Nat → Prop} {P : Value → Prop} {w : World} {a : Activation} {act : Action}
  {p : Nat}

theorem Activation.emit_changes {op : Op} {out : Output} {text : String} {q : Nat}
    (hs : ∀ slot, out = .buffer slot → slot ∈ op.writes) (hq : q ∈ op.targets p)
    (hop : op.point? ≠ none) (hout : op.output? = some out) (hcall : ¬ op.IsCall)
    (h : a.emit out text q = .ok act) :
    act.Changes P op p a := by
  cases out with
  | sink =>
    cases h
    refine ⟨.refl, hq, ?_, fun _ _ _ _ _ _ h => (by cases h)⟩
    rintro _ _ _ ⟨⟩
    exact ⟨rfl, hop, hout, hcall⟩
  | buffer slot =>
    simp only [Activation.emit, Except.bind_ok_iff] at h
    obtain ⟨s, -, b, hb, h⟩ := h
    cases h
    exact .goto (Activation.set_changed hb (hs slot rfl) fun v hv => (by cases hv)) hq

variable (hp : Supply room P w a)

include hp

theorem Activation.beginLoop_changes {point : Nat} {c : Code} {list cursor : Nat}
    {onEmpty : Option Nat} {v : Value} (hv : P v) (h : a.beginLoop p list cursor onEmpty v = .ok act) :
    act.Changes P (.forInit point c list cursor onEmpty) p a := by
  cases v with
  | list vs =>
    simp only [Activation.beginLoop, Except.bind_ok_iff] at h
    obtain ⟨b, hb, d, hc, h⟩ := h
    have hab : a.Changed P [list, cursor] d :=
      (Activation.set_changed hb (by simp) fun v hv' => by cases hv'; exact hv).trans
        (Activation.set_changed hc (by simp) fun v hv => by cases hv; exact hp.closed.atom rfl)
    cases onEmpty with
    | none =>
      cases h
      exact .goto hab List.mem_cons_self
    | some target =>
      cases vs <;> cases h
      · exact .goto hab (by simp [Op.targets, Op.flows])
      · exact .goto hab List.mem_cons_self
  | _ => cases h

theorem Activation.nextItem_changes {list cursor item exit : Nat} {index : Option Nat}
    (h : a.nextItem p list cursor item index exit = .ok act) :
    act.Changes P (.forNext list cursor item index exit) p a := by
  simp only [Activation.nextItem, Except.bind_ok_iff] at h
  obtain ⟨n, hn, v, hv, h⟩ := h
  cases v with
  | list vs =>
    dsimp only at h
    cases hx : vs[n]? with
    | none =>
      rw [hx] at h
      cases h
      exact .goto .refl List.mem_cons_self
    | some x =>
      rw [hx] at h
      have hP : P x :=
        hp.closed.item (hp.slots list _ (Activation.value_eq hv)) (List.mem_of_getElem? hx)
      obtain ⟨b, hb, h⟩ := Except.bind_ok_iff.1 h
      have hab : a.Changed P (cursor :: item :: index.toList) b :=
        Activation.set_changed hb (by simp) fun v hv => by cases hv; exact hP
      obtain ⟨c, d, hbc, hd, h⟩ : ∃ c d, b.Changed P (cursor :: item :: index.toList) c ∧
          c.set cursor (.cursor (n + 1)) = .ok d ∧ act = .goto (p + 1) d := by
        cases index with
        | none =>
          simp only [Except.pure_eq, Except.ok_bind] at h
          obtain ⟨d, hd, h⟩ := Except.bind_ok_iff.1 h
          cases h
          exact ⟨b, d, .refl, hd, rfl⟩
        | some slot =>
          obtain ⟨c, hc, h⟩ := Except.bind_ok_iff.1 h
          obtain ⟨d, hd, h⟩ := Except.bind_ok_iff.1 h
          cases h
          exact ⟨c, d, Activation.set_changed hc (by simp) fun v hv => by
            cases hv
            exact hp.closed.atom rfl, hd, rfl⟩
      have hcd : c.Changed P (cursor :: item :: index.toList) d :=
        Activation.set_changed hd (by simp) fun v hv => by cases hv; exact hp.closed.atom rfl
      subst h
      exact .goto ((hab.trans hbc).trans hcd) (by simp [Op.targets, Op.flows])
  | _ => cases h

theorem Activation.endCapture_changes {buffer dest : Nat} {kind : ContentKind}
    (h : a.endCapture p buffer dest kind = .ok act) :
    act.Changes P (.endCapture buffer dest kind) p a := by
  unfold Activation.endCapture at h
  split at h
  · cases h
  · rename_i text _
    simp only [Except.bind_ok_iff] at h
    obtain ⟨b, hb, c, hc, h⟩ := h
    cases h
    have hk : (Activation.captured kind text).isAtom := by cases kind <;> rfl
    exact .goto ((Activation.set_changed hb (by simp [Op.writes]) fun v hv => (by cases hv)).trans
      (Activation.set_changed hc (by simp [Op.writes]) fun v hv => by
        cases hv
        exact hp.closed.atom hk))
      List.mem_cons_self
  · cases h

omit hp in
theorem Activation.callAction_changes {point : Nat} {out : Output} {callee : Callee}
    {base : ParamsBase} {args : List (String × ArgSource)}
    (h : a.callAction w p point out callee base args = .ok act) :
    act.Changes P (.call point out callee base args) p a := by
  unfold Activation.callAction at h
  split at h
  · rename_i c cs hw
    cases h
    refine ⟨⟨rfl, rfl, rfl, rfl, .inr rfl, fun _ => .inl rfl⟩, List.mem_cons_self,
      fun _ _ _ h => (by cases h), ?_⟩
    rintro _ _ _ _ _ _ ⟨⟩
    exact ⟨rfl, ⟨_, _, _, _, rfl⟩,
      .inr ⟨point, c, cs, Activation.waiting_of_waitingAt? hw, rfl, rfl, rfl, rfl⟩⟩
  · obtain ⟨r, -, h⟩ := Except.bind_ok_iff.1 h
    obtain ⟨q, -, h⟩ := Except.bind_ok_iff.1 h
    obtain ⟨t, -, h⟩ := Except.bind_ok_iff.1 h
    cases t with
    | none =>
      cases h
      exact .goto .refl List.mem_cons_self
    | some t =>
      cases h
      refine ⟨.refl, List.mem_cons_self, fun _ _ _ h => (by cases h), ?_⟩
      rintro _ _ _ _ _ _ ⟨⟩
      exact ⟨rfl, ⟨_, _, _, _, rfl⟩, .inl ⟨rfl, rfl⟩⟩

theorem Activation.action_changes {op : Op} (hc : ∀ c ∈ op.stored, c.Bears room P)
    (h : a.action w p op = .ok act) : act.Changes P op p a := by
  cases op with
  | text point out s =>
    exact Activation.emit_changes (by rintro _ rfl; simp [Op.writes]) List.mem_cons_self
      (by simp [Op.point?]) rfl (by rintro ⟨_, _, _, _, _, ⟨⟩⟩) h
  | print point out c =>
    obtain ⟨v, -, h⟩ := Except.bind_ok_iff.1 h
    exact Activation.emit_changes (by rintro _ rfl; simp [Op.writes]) List.mem_cons_self
      (by simp [Op.point?]) rfl (by rintro ⟨_, _, _, _, _, ⟨⟩⟩) h
  | store point slot c forces =>
    obtain ⟨v, hv, h⟩ : ∃ v, (if forces then c.result w a else c.value w a) = .ok v ∧
        (do return Action.goto (p + 1) (← a.set slot (.value v))) = Except.ok act := by
      cases forces <;> exact Except.bind_ok_iff.1 h
    obtain ⟨b, hb, h⟩ := Except.bind_ok_iff.1 h
    cases h
    have hP : P v := by
      split at hv
      · exact Code.result_closed hp (hc c List.mem_cons_self) hv
      · exact Code.value_closed hp (hc c List.mem_cons_self) hv
    exact .goto (Activation.set_changed hb List.mem_cons_self fun u hu => by cases hu; exact hP)
      List.mem_cons_self
  | branchUnless point c target =>
    obtain ⟨v, -, h⟩ := Except.bind_ok_iff.1 h
    cases h
    refine .goto .refl ?_
    split <;> simp [Op.targets, Op.flows]
  | branchUnlessMatch point subject cases target =>
    obtain ⟨v, -, h⟩ := Except.bind_ok_iff.1 h
    obtain ⟨u, -, h⟩ := Except.bind_ok_iff.1 h
    cases h
    refine .goto .refl ?_
    split <;> simp [Op.targets, Op.flows]
  | jump target =>
    cases h
    exact .goto .refl List.mem_cons_self
  | forInit point c list cursor onEmpty =>
    obtain ⟨v, hv, h⟩ := Except.bind_ok_iff.1 h
    exact Activation.beginLoop_changes hp (Code.result_closed hp (hc c List.mem_cons_self) hv) h
  | forNext list cursor item index exit => exact Activation.nextItem_changes hp h
  | beginCapture buffer =>
    obtain ⟨b, hb, h⟩ := Except.bind_ok_iff.1 h
    cases h
    exact .goto (Activation.set_changed hb List.mem_cons_self fun u hu => (by cases hu))
      List.mem_cons_self
  | endCapture buffer dest kind => exact Activation.endCapture_changes hp h
  | call point out callee base args => exact Activation.callAction_changes h

theorem Activation.withArgs_closed {args : List (String × ArgSource)} {r q : Record}
    (hr : Record.All P r) (hc : ∀ c ∈ args.flatMap (·.2.codes), c.Bears room P)
    (h : a.withArgs w r args = .ok q) : Record.All P q := by
  induction args generalizing r with
  | nil =>
    cases h
    exact hr
  | cons arg args ih =>
    have hrest := fun c hd => hc c (by
      rw [List.flatMap_cons]
      exact List.mem_append_right _ hd)
    obtain ⟨name, c | n⟩ := arg
    · rw [Activation.withArgs] at h
      obtain ⟨v, hv, h⟩ := Except.bind_ok_iff.1 h
      exact ih (hr.insert name (Code.value_closed hp (hc c (by simp [ArgSource.codes])) hv)) hrest h
    · rw [Activation.withArgs] at h
      obtain ⟨v, hv, h⟩ := Except.bind_ok_iff.1 h
      exact ih (hr.insert name (hp.slots n _ (Activation.value_eq hv))) hrest h

theorem Activation.base_closed {base : ParamsBase} {r : Record} (hpar : Record.All P a.params)
    (hc : ∀ c ∈ base.codes, c.Bears room P) (h : a.base w base = .ok r) : Record.All P r := by
  cases base with
  | none =>
    cases h
    exact fun _ hf => by cases hf
  | all =>
    cases h
    exact hpar
  | code c =>
    obtain ⟨v, hv, h⟩ := Except.bind_ok_iff.1 h
    have hP := Code.result_closed hp (hc c List.mem_cons_self) hv
    unfold Activation.recordOf at h
    split at h
    · cases h
      exact fun _ hf => hp.closed.field hP hf
    · cases h
      exact fun _ hf => by cases hf
    · cases h

end

theorem Activation.action_call {w : World} {a b : Activation} {p q point : Nat} {out out' : Output}
    {callee : Callee} {base : ParamsBase} {args : List (String × ArgSource)} {t : TemplateRef}
    {params : Record}
    (h : a.action w p (.call point out callee base args) = .ok (.call out' t none params q b)) :
    ∃ r, a.base w base = .ok r ∧ a.withArgs w r args = .ok params ∧
      a.callee w callee = .ok (some t) := by
  simp only [Activation.action, Activation.callAction] at h
  split at h
  · cases h
  · obtain ⟨r, hr, h⟩ := Except.bind_ok_iff.1 h
    obtain ⟨s, hs, h⟩ := Except.bind_ok_iff.1 h
    obtain ⟨u, hu, h⟩ := Except.bind_ok_iff.1 h
    cases u with
    | none => cases h
    | some u =>
      cases h
      exact ⟨r, hr, hs, hu⟩

end ResumableTemplates
