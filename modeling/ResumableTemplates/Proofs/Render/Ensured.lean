import ResumableTemplates.Proofs.Render.Quiet

/-! What computations give. A value that evaluation gives has every property that passes from parts to
wholes, whoever finds the sites and whatever is put off; so it is with all that an op leaves in slots. -/
namespace ResumableTemplates

namespace Render

theorem liftM_eq_ok {x : Except RenderError α} {s t : RenderState} {a : α} :
    (liftM x : Render α) s = (.ok a, t) ↔ x = .ok a ∧ s = t := by
  cases x with
  | ok b => exact ⟨fun h => by cases h; exact ⟨rfl, rfl⟩, fun ⟨h, h'⟩ => by cases h; cases h'; rfl⟩
  | error e => exact ⟨fun h => (by cases h), fun ⟨h, _⟩ => (by cases h)⟩

def Ensures (P : α → Prop) (r : Render α) : Prop := ∀ ⦃a⦄, r.Gives a → P a

namespace Ensures

variable {P : α → Prop} {Q : β → Prop} {r : Render α} {f : α → Render β}

theorem pure {a : α} (h : P a) : Ensures P (pure a : Render α) := by
  rintro _ ⟨s, t, ⟨⟩⟩
  exact h

theorem stop {e : Stop} : Ensures P (throw e : Render α) := by
  rintro _ ⟨s, t, ⟨⟩⟩

theorem bind (h : Ensures P r) (hf : ∀ a, P a → Ensures Q (f a)) : Ensures Q (r >>= f) := by
  rintro b ⟨s, t, hb⟩
  obtain ⟨a, u, ha, hb⟩ := bind_eq_ok.1 hb
  exact hf a (h ⟨s, u, ha⟩) ⟨u, t, hb⟩

theorem andThen (hf : ∀ a, Ensures Q (f a)) : Ensures Q (r >>= f) :=
  bind (P := fun _ => True) (fun _ _ => trivial) fun a _ => hf a

theorem lift {x : Except RenderError α} (h : ∀ a, x = .ok a → P a) :
    Ensures P (liftM x : Render α) := by
  rintro a ⟨s, t, ha⟩
  exact h a (liftM_eq_ok.1 ha).1

theorem ofData {x : Except DataError α} (h : ∀ a, x = .ok a → P a) :
    Ensures P (liftM (Render.ofData x) : Render α) := by
  refine lift fun a ha => h a ?_
  cases x with
  | error e => cases ha
  | ok b =>
    cases ha
    rfl

variable {room : Nat → Prop} {P : Value → Prop} (hP : Value.Closed room P) {env : Env}

include hP

theorem force {v : Value} (hv : P v) : Ensures P (Render.force env v) := by
  induction v using Value.forced.induct with
  | case1 provider v ih =>
    rw [Render.force]
    refine andThen fun isReady => ?_
    cases isReady with
    | true => exact ih (hP.yields hv)
    | false => exact stop
  | case2 v h =>
    cases v with
    | lazy provider v => exact absurd rfl (h provider v)
    | _ => exact pure hv

theorem forced {r : Render Value} (h : Ensures P r) : Ensures P (Render.forced env r) :=
  h.bind fun _ hv => force hP hv

end Ensures

end Render

open Render (Ensures)

section Values

variable {room : Nat → Prop} {P : Value → Prop} {env : Env} {bs : Table Site Binding}
  {a : Activation} (h : Supply room P (env.world bs) a)

include h

namespace Code

mutual

theorem read_ensures : (c : Code) → c.Bears room P → Ensures P (c.read env a)
  | .const v, hc => .pure (hc (.const v) (mem_parts _))
  | .slot n, _ => by
    refine .lift fun v hv => ?_
    unfold Activation.variable at hv
    split at hv
    · rename_i u hu
      cases hv
      exact h.slots n _ hu
    · cases hv
  | .injected name, _ => .pure (h.injected.read (h.closed.atom rfl) name)
  | .binary op l r, hc => by
    rw [Code.read]
    refine (Ensures.forced h.closed (read_ensures l fun d hd => hc d (by simp [parts, hd]))).bind
      fun x hx => ?_
    cases hu : op.decidedBy? x with
    | some u => exact .pure (h.closed.decidedBy? hx hu)
    | none =>
      exact (Ensures.forced h.closed (read_ensures r fun d hd => hc d (by simp [parts, hd]))).bind
        fun y hy => .ofData fun v => h.closed.binary hx hy
  | .unary op e, _ => by
    rw [Code.read]
    exact .andThen fun x => .ofData fun v hv => h.closed.atom (Value.isAtom_of_unary hv)
  | .cond c t e, hc => by
    rw [Code.read]
    refine .andThen fun x => ?_
    split
    · exact .forced h.closed (read_ensures t fun d hd => hc d (by simp [parts, hd]))
    · exact .forced h.closed (read_ensures e fun d hd => hc d (by simp [parts, hd]))
  | .list cs, hc => by
    rw [Code.read]
    refine (readAll_ensures cs fun d hd => hc d (by simp [parts, hd])).bind fun vs hvs => ?_
    exact .pure (h.closed.list (hvs.1 ▸ hc (.list cs) (mem_parts _)) hvs.2)
  | .record fs, hc => by
    rw [Code.read]
    refine (readFields_ensures fs fun d hd => hc d (by simp [parts, hd])).bind fun vs hvs => ?_
    exact .pure (h.closed.record (Record.All.ofList hvs))
  | .field b name nullSafe, hc => by
    rw [Code.read]
    exact (Ensures.forced h.closed (read_ensures b fun d hd => hc d (by simp [parts, hd]))).bind
      fun x hx => .ofData fun v => h.closed.fieldOf hx
  | .index b k, hc => by
    rw [Code.read]
    exact (Ensures.forced h.closed (read_ensures b fun d hd => hc d (by simp [parts, hd]))).bind
      fun x hx => .andThen fun y => .ofData fun v => h.closed.itemOf hx
  | .builtin f cs, _ => by
    rw [Code.read]
    exact .andThen fun vs => .ofData fun v hv => h.closed.atom (Value.isAtom_of_apply hv)
  | .template i name, _ => by
    rw [Code.read]
    exact .andThen fun t => .pure (h.closed.atom rfl)
  | .element id name none, _ => by
    rw [Code.read]
    exact .pure (h.closed.atom rfl)
  | .element id name (some (i, table)), _ => by
    rw [Code.read]
    exact .andThen fun m => .pure (h.closed.atom rfl)

theorem readAll_ensures : (cs : List Code) →
    (∀ d ∈ Code.partsAll cs, match d with
      | .const v => P v
      | .list cs => room cs.length
      | _ => True) →
    Ensures (fun vs => vs.length = cs.length ∧ ∀ v ∈ vs, P v) (Code.readAll env a cs)
  | [], _ => .pure ⟨rfl, fun _ hv => (by cases hv)⟩
  | c :: cs, hc => by
    rw [Code.readAll]
    refine (Ensures.forced h.closed
      (read_ensures c fun d hd => hc d (by simp [partsAll, hd]))).bind fun v hv => ?_
    refine (readAll_ensures cs fun d hd => hc d (by simp [partsAll, hd])).bind fun vs hvs => ?_
    exact .pure ⟨congrArg (· + 1) hvs.1, List.forall_mem_cons.2 ⟨hv, hvs.2⟩⟩

theorem readFields_ensures : (fs : List (String × Code)) →
    (∀ d ∈ Code.partsFields fs, match d with
      | .const v => P v
      | .list cs => room cs.length
      | _ => True) →
    Ensures (fun vs => ∀ f ∈ vs, P f.2) (Code.readFields env a fs)
  | [], _ => .pure fun _ hf => (by cases hf)
  | (k, c) :: fs, hc => by
    rw [Code.readFields]
    refine (Ensures.forced h.closed
      (read_ensures c fun d hd => hc d (by simp [partsFields, hd]))).bind fun v hv => ?_
    refine (readFields_ensures fs fun d hd => hc d (by simp [partsFields, hd])).bind fun vs hvs => ?_
    exact .pure (List.forall_mem_cons.2 ⟨hv, hvs⟩)

end

theorem eval_ensures {c : Code} (hc : c.Bears room P) : Ensures P (c.eval env a) :=
  .forced h.closed (read_ensures h c hc)

end Code

theorem Activation.plan_ensures {op : Op} {p : Nat} (hc : ∀ c ∈ op.stored, c.Bears room P) :
    Ensures (fun act => act.Changes P op p a) (a.plan env p op) := by
  cases op with
  | text point out s =>
    exact .lift fun act => emit_changes (by rintro _ rfl; simp [Op.writes]) List.mem_cons_self
      (by simp [Op.point?]) rfl (by rintro ⟨_, _, _, _, _, ⟨⟩⟩)
  | print point out c =>
    exact .andThen fun v => .lift fun act => emit_changes (by rintro _ rfl; simp [Op.writes])
      List.mem_cons_self (by simp [Op.point?]) rfl (by rintro ⟨_, _, _, _, _, ⟨⟩⟩)
  | store point slot c forces =>
    have hset : ∀ v, P v → Ensures (fun act => act.Changes P (.store point slot c forces) p a)
        (do return .goto (p + 1) (← a.set slot (.value v)) : Render Action) := fun v hv =>
      Ensures.bind (P := fun b => a.Changed P [slot] b)
        (.lift fun b hb => set_changed hb List.mem_cons_self fun u hu => by cases hu; exact hv)
        fun b hb => .pure (.goto hb List.mem_cons_self)
    rw [Activation.plan]
    cases forces with
    | true => exact (Code.eval_ensures h (hc c List.mem_cons_self)).bind hset
    | false => exact (Code.read_ensures h c (hc c List.mem_cons_self)).bind hset
  | branchUnless point c target =>
    refine .andThen fun v => .pure (.goto .refl ?_)
    split <;> simp [Op.targets, Op.flows]
  | branchUnlessMatch point subject cases target =>
    refine .andThen fun v => .andThen fun b => .pure (.goto .refl ?_)
    split <;> simp [Op.targets, Op.flows]
  | jump target => exact .pure (.goto .refl List.mem_cons_self)
  | forInit point c list cursor onEmpty =>
    exact (Code.eval_ensures h (hc c List.mem_cons_self)).bind fun v hv =>
      .lift fun act => beginLoop_changes h hv
  | forNext list cursor item index exit => exact .lift fun act => nextItem_changes h
  | beginCapture buffer =>
    exact Ensures.bind (P := fun b => a.Changed P [buffer] b)
      (.lift fun b hb => set_changed hb List.mem_cons_self fun u hu => (by cases hu))
      fun b hb => .pure (.goto hb List.mem_cons_self)
  | endCapture buffer dest kind => exact .lift fun act => endCapture_changes h
  | call point out callee base args =>
    rw [Activation.plan, planCall]
    cases hw : a.waitingAt? point with
    | some c =>
      refine .pure ⟨⟨rfl, rfl, rfl, rfl, .inr rfl, fun _ => .inl rfl⟩, List.mem_cons_self,
        fun _ _ _ h => (by cases h), ?_⟩
      rintro _ _ _ _ _ _ ⟨⟩
      exact ⟨rfl, ⟨_, _, _, _, rfl⟩, .inr ⟨_, _, _, waiting_of_waitingAt? hw, rfl, rfl, rfl, rfl⟩⟩
    | none =>
      refine .andThen fun r => .andThen fun q => .andThen fun c => ?_
      cases c with
      | none => exact .pure (.goto .refl List.mem_cons_self)
      | some c =>
        refine .pure ⟨.refl, List.mem_cons_self, fun _ _ _ h => (by cases h), ?_⟩
        rintro _ _ _ _ _ _ ⟨⟩
        exact ⟨rfl, ⟨_, _, _, _, rfl⟩, .inl ⟨rfl, rfl⟩⟩

end Values

end ResumableTemplates
