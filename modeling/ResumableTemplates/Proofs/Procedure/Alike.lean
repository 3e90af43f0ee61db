import ResumableTemplates.Proofs.Procedure.Typing

/-! An op that is safe does the same in activations that are alike, and leaves them alike. Expressions
look at forced values only, so they come to the same where slots hold values that are alike; what
they merely hand on is alike again. -/
namespace ResumableTemplates

section Evaluation

variable {defers : Prop} {w x : World} {a b : Activation} {Γ : Typing} {Q : RenderError → Prop}
  {known : Nat → String → UInt64 → Prop}

structure Matching (defers : Prop) (Q : RenderError → Prop) (known : Nat → String → UInt64 → Prop)
    (w x : World) (Γ : Typing) (a b : Activation) : Prop where
  world : w.Alike defers x
  activation : a.Alike defers Γ b
  allowed : w.Tolerates Q known

theorem Matching.data (h : Matching defers Q known w x Γ a b) {r : Except DataError Value} :
    Paired Q Eq (Render.ofData r) (Render.ofData r) :=
  .refl fun e he => h.allowed.other e (by cases r <;> cases he; rfl)

variable (h : Matching defers Q known w x Γ a b)

include h

set_option linter.unusedSectionVars false in
mutual

theorem Code.value_alike : {c : Code} → c.Reads (known a.unit) Γ →
    Paired Q (Value.Alike defers) (c.value w a) (c.value x b)
  | .const v, _ => Value.Alike.refl v
  | .slot n, hc => by
    simp only [Code.value]
    exact h.activation.variable_paired (hc (.slot n) (mem_parts _))
  | .injected name, _ => by
    simp only [Code.value]
    exact h.world.injected.read name
  | .binary op l r, hc => by
    simp only [Code.value]
    refine (Code.value_alike fun d hd => hc d (by simp [parts, hd])).bind fun u v huv => ?_
    rw [huv.1]
    cases hd : op.decidedBy? v.forced with
    | some y => exact Value.Alike.refl y
    | none =>
      refine (Code.value_alike fun d hd => hc d (by simp [parts, hd])).bind fun u' v' huv' => ?_
      simp only [huv'.1]
      exact h.data.mono fun _ _ he => he ▸ .refl _
  | .unary op e, hc => by
    simp only [Code.value]
    refine (Code.value_alike fun d hd => hc d (by simp [parts, hd])).bind fun u v huv => ?_
    simp only [huv.1]
    exact h.data.mono fun _ _ he => he ▸ .refl _
  | .cond c t e, hc => by
    simp only [Code.value]
    refine (Code.value_alike fun d hd => hc d (by simp [parts, hd])).bind fun u v huv => ?_
    rw [huv.1]
    split
    · refine (Code.value_alike fun d hd => hc d (by simp [parts, hd])).bind fun u' v' huv' => ?_
      rw [huv'.1]
      exact Value.Alike.refl _
    · refine (Code.value_alike fun d hd => hc d (by simp [parts, hd])).bind fun u' v' huv' => ?_
      rw [huv'.1]
      exact Value.Alike.refl _
  | .list cs, hc => by
    simp only [Code.value]
    exact (Code.values_alike fun d hd => hc d (by simp [parts, hd])).bind fun u v huv =>
      huv ▸ Value.Alike.refl _
  | .record fs, hc => by
    simp only [Code.value]
    exact (Code.fields_alike fun d hd => hc d (by simp [parts, hd])).bind fun u v huv =>
      huv ▸ Value.Alike.refl _
  | .field base n s, hc => by
    simp only [Code.value]
    refine (Code.value_alike fun d hd => hc d (by simp [parts, hd])).bind fun u v huv => ?_
    simp only [huv.1]
    exact h.data.mono fun _ _ he => he ▸ .refl _
  | .index base k, hc => by
    simp only [Code.value]
    refine (Code.value_alike fun d hd => hc d (by simp [parts, hd])).bind fun u v huv => ?_
    refine (Code.value_alike fun d hd => hc d (by simp [parts, hd])).bind fun u' v' huv' => ?_
    simp only [huv.1, huv'.1]
    exact h.data.mono fun _ _ he => he ▸ .refl _
  | .builtin f cs, hc => by
    simp only [Code.value]
    refine (Code.values_alike fun d hd => hc d (by simp [parts, hd])).bind fun u v huv => ?_
    rw [huv]
    exact h.data.mono fun _ _ he => he ▸ .refl _
  | .template i name, _ => by
    simp only [Code.value, ← h.world.template, ← h.activation.unit, ← h.activation.template,
      ← h.world.library]
    exact (Paired.refl fun e he => h.allowed.sites _ _ i name e he).bind fun u v huv =>
      huv ▸ Value.Alike.refl _
  | .element id name none, _ => by
    simp only [Code.value]
    exact Value.Alike.refl _
  | .element id name (some (i, table)), hc => by
    have hk : known a.unit table id := hc (.element id name (some (i, table))) (mem_parts _)
    simp only [Code.value, ← h.world.element, ← h.activation.unit, ← h.activation.template]
    exact (Paired.refl fun e he => h.allowed.elements _ _ i table id e hk he).bind fun u v huv =>
      huv ▸ Value.Alike.refl _

theorem Code.values_alike : {cs : List Code} →
    (∀ d ∈ Code.partsAll cs, match d with
      | .const v => v.IsPlain
      | .slot n => Γ n = some .value
      | .element id _ (some (_, table)) => known a.unit table id
      | _ => True) →
    Paired Q Eq (Code.values w a cs) (Code.values x b cs)
  | [], _ => rfl
  | c :: cs, hc => by
    simp only [Code.values]
    refine (Code.value_alike fun d hd => hc d (by simp [partsAll, hd])).bind fun u v huv => ?_
    refine (Code.values_alike fun d hd => hc d (by simp [partsAll, hd])).bind fun us vs huvs => ?_
    rw [huv.1, huvs]
    exact rfl

theorem Code.fields_alike : {cs : List (String × Code)} →
    (∀ d ∈ Code.partsFields cs, match d with
      | .const v => v.IsPlain
      | .slot n => Γ n = some .value
      | .element id _ (some (_, table)) => known a.unit table id
      | _ => True) →
    Paired Q Eq (Code.fields w a cs) (Code.fields x b cs)
  | [], _ => rfl
  | (k, c) :: cs, hc => by
    simp only [Code.fields]
    refine (Code.value_alike fun d hd => hc d (by simp [partsFields, hd])).bind fun u v huv => ?_
    refine (Code.fields_alike fun d hd => hc d (by simp [partsFields, hd])).bind
      fun us vs huvs => ?_
    rw [huv.1, huvs]
    exact rfl

end

theorem Code.result_alike {c : Code} (hc : c.Reads (known a.unit) Γ) :
    Paired Q Eq (c.result w a) (c.result x b) := by
  refine (Code.value_alike h hc).bind fun u v huv => ?_
  rw [huv.1]
  exact rfl

theorem Activation.matched_alike {subject : Value} {cs : List Code}
    (hc : ∀ c ∈ cs, c.Reads (known a.unit) Γ) :
    Paired Q Eq (a.matched w subject cs) (b.matched x subject cs) := by
  induction cs with
  | nil => exact rfl
  | cons c cs ih =>
    rw [Activation.matched, Activation.matched]
    refine (Code.result_alike h (hc c List.mem_cons_self)).bind fun u v huv => ?_
    rw [huv]
    split
    · exact rfl
    · exact ih fun d hd => hc d (List.mem_cons_of_mem _ hd)

theorem Activation.base_alike {base : ParamsBase} (hc : ∀ c ∈ base.codes, c.Reads (known a.unit) Γ) :
    Paired Q (Record.Alike defers) (a.base w base) (b.base x base) := by
  cases base with
  | none => exact Record.Alike.refl []
  | all => exact h.activation.params
  | code c =>
    refine (Code.result_alike h (hc c List.mem_cons_self)).bind fun u v huv => ?_
    rw [huv]
    refine (Paired.refl fun e he => h.allowed.other e ?_).mono fun _ _ he => he ▸ .refl _
    unfold Activation.recordOf at he
    split at he <;> cases he
    rfl

theorem Activation.withArgs_alike {args : List (String × ArgSource)} {r q : Record}
    (hr : Record.Alike defers r q) (hc : ∀ arg ∈ args, arg.2.Safe (known a.unit) Γ) :
    Paired Q (Record.Alike defers) (a.withArgs w r args) (b.withArgs x q args) := by
  induction args generalizing r q with
  | nil => exact hr
  | cons arg args ih =>
    have hrest := fun d hd => hc d (List.mem_cons_of_mem _ hd)
    have harg := hc arg List.mem_cons_self
    obtain ⟨name, c | n⟩ := arg
    · rw [Activation.withArgs, Activation.withArgs]
      exact (Code.value_alike h harg).bind fun u v huv => ih (hr.insert name huv) hrest
    · rw [Activation.withArgs, Activation.withArgs]
      exact (h.activation.value_paired harg).bind fun u v huv => ih (hr.insert name huv) hrest

theorem Activation.variant_alike {v : Option Code} (hc : ∀ c ∈ v.toList, c.Reads (known a.unit) Γ) :
    Paired Q Eq (a.variant w v) (b.variant x v) := by
  cases v with
  | none => exact rfl
  | some c =>
    refine (Code.result_alike h (hc c List.mem_cons_self)).bind fun u v huv => ?_
    rw [huv]
    exact rfl

theorem Activation.seeking_alike {callee : Callee}
    (hc : ∀ c ∈ callee.codes, c.Reads (known a.unit) Γ) : a.seeking w callee = b.seeking x callee := by
  cases callee with
  | template i name =>
    rw [Activation.seeking, Activation.seeking, Activation.site, Activation.site,
      ← h.world.isLookedUp, ← h.activation.unit, ← h.activation.template]
  | delegate name v allowEmpty =>
    have hv := Activation.variant_alike h hc
    rw [Activation.seeking, Activation.seeking, ← h.activation.unit, ← h.activation.template]
    cases ha : a.variant w v with
    | error e => rw [(hv.error ha).1]
    | ok text =>
      obtain ⟨text', hb, rfl⟩ := hv.ok ha
      rw [hb]

theorem Activation.callee_alike {callee : Callee} (hc : ∀ c ∈ callee.codes, c.Reads (known a.unit) Γ) :
    Paired Q Eq (a.callee w callee) (b.callee x callee) := by
  cases callee with
  | template i name =>
    rw [Activation.callee, Activation.callee, ← h.world.template, ← h.activation.unit,
      ← h.activation.template]
    refine .refl fun e he => ?_
    cases ht : w.template a.unit a.template.name i name with
    | error f =>
      rw [ht] at he
      cases he
      exact h.allowed.sites _ _ i name _ ht
    | ok t => rw [ht] at he; cases he
  | delegate name v allowEmpty =>
    rw [Activation.callee, Activation.callee, ← h.world.lookup]
    refine (Activation.variant_alike h hc).bind fun u v huv => ?_
    rw [huv]
    refine .refl fun e he => h.allowed.other e ?_
    cases hl : w.lookup.delegate? name v with
    | some t => rw [hl] at he; cases he
    | none =>
      rw [hl] at he
      cases allowEmpty <;> cases he
      rfl

end Evaluation

inductive Action.Alike (defers : Prop) (flows : List (Nat × Typing)) : Action → Action → Prop
  | goto : (q, Γ) ∈ flows → a.Alike defers Γ b → Alike defers flows (.goto q a) (.goto q b)
  | write : (q, Γ) ∈ flows → a.Alike defers Γ b →
      Alike defers flows (.write text q a) (.write text q b)
  | call : (q, Γ) ∈ flows → a.Alike defers Γ b → out.Safe Γ → Record.Alike defers r s →
      Alike defers flows (.call out t frames r q a) (.call out t frames s q b)

section Actions

variable {defers : Prop} {w x : World} {a b : Activation} {Γ : Typing} {Q : RenderError → Prop}
  {known : Nat → String → UInt64 → Prop} (h : Matching defers Q known w x Γ a b)

include h

theorem Activation.emit_alike {out : Output} {text : String} {p : Nat} (hout : out.Safe Γ) :
    Paired Q (Action.Alike defers [(p, Γ)]) (a.emit out text p) (b.emit out text p) := by
  cases out with
  | sink => exact .write List.mem_cons_self h.activation
  | buffer slot =>
    obtain ⟨s, ha, hb⟩ := h.activation.buffer hout
    simp only [Activation.emit, Activation.buffer, ha, hb]
    refine (h.activation.set (h.activation.lt_size hout) (some .buffer)
      fun ty hty => ?_).bind fun a' b' hab => ?_
    · cases hty
      exact .buffer
    · refine .goto List.mem_cons_self (hab.1.weaken fun n ty hn => ?_)
      by_cases hns : n = slot
      · subst hns
        rw [Γ.set_same, ← hn]
        exact hout.symm
      · rwa [Γ.set_other _ hns]

theorem Activation.beginLoop_alike {p list cursor : Nat} {onEmpty : Option Nat} {v : Value}
    (hl : list < a.template.procedure.layout.size)
    (hc : cursor < a.template.procedure.layout.size) :
    let Δ := (Γ.set list (some .list)).set cursor (some .cursor)
    Paired Q (Action.Alike defers ((p + 1, Δ) :: onEmpty.toList.map (·, Δ)))
      (a.beginLoop p list cursor onEmpty v) (b.beginLoop p list cursor onEmpty v) := by
  intro Δ
  cases v with
  | list vs =>
    simp only [Activation.beginLoop]
    refine (h.activation.set hl (some .list) fun ty hty => by cases hty; exact .list).bind
      fun a' b' hab => ?_
    refine (hab.1.set (hab.2.1 ▸ hc) (some .cursor)
      fun ty hty => by cases hty; exact .cursor).bind fun a'' b'' hab' => ?_
    cases onEmpty with
    | none => exact .goto List.mem_cons_self hab'.1
    | some target =>
      cases vs with
      | nil => exact .goto (List.mem_cons_of_mem _ List.mem_cons_self) hab'.1
      | cons v vs => exact .goto List.mem_cons_self hab'.1
  | _ => exact ⟨rfl, h.allowed.other _ rfl⟩

theorem Activation.nextItem_alike {p list cursor item exit : Nat} {index : Option Nat}
    (hl : Γ list = some .list) (hc : Γ cursor = some .cursor)
    (hi : ∀ n ∈ item :: index.toList, n < a.template.procedure.layout.size ∧
      n ≠ list ∧ n ≠ cursor) :
    Paired Q (Action.Alike defers [(exit, Γ),
        (p + 1, index.toList.foldl (·.set · (some .value)) (Γ.set item (some .value)))])
      (a.nextItem p list cursor item index exit) (b.nextItem p list cursor item index exit) := by
  obtain ⟨n, hna, hnb⟩ := h.activation.cursor hc
  obtain ⟨vs, hva, hvb⟩ := h.activation.list hl
  simp only [Activation.nextItem, hna, hnb, hva, hvb, Except.ok_bind]
  cases hn : vs[n]? with
  | none => exact .goto List.mem_cons_self h.activation
  | some v =>
    obtain ⟨his, hil, hic⟩ := hi item List.mem_cons_self
    refine (h.activation.set his (some .value)
      fun ty hty => by cases hty; exact .value (.refl v)).bind fun a' b' hab => ?_
    have hcur : ∀ {Δ : Typing} {c d : Activation}, c.Alike defers Δ d → Δ cursor = some .cursor →
        Paired Q (fun c' d' => c'.Alike defers Δ d') (c.set cursor (.cursor (n + 1)))
          (d.set cursor (.cursor (n + 1))) := by
      intro Δ c d hcd hΔ
      refine (hcd.set (hcd.lt_size hΔ) (some .cursor)
        fun ty hty => by cases hty; exact .cursor).mono fun c' d' hcd' => hcd'.1.weaken ?_
      intro m ty hm
      by_cases hmc : m = cursor
      · subst hmc
        rw [Δ.set_same, ← hm, hΔ]
      · rwa [Δ.set_other _ hmc]
    have hΓ : Γ.set item (some .value) cursor = some .cursor := by
      rwa [Γ.set_other _ (Ne.symm hic)]
    cases index with
    | none =>
      refine (hcur hab.1 hΓ).bind fun c d hcd => ?_
      exact .goto (List.mem_cons_of_mem _ List.mem_cons_self) hcd
    | some slot =>
      obtain ⟨hss, hsl, hsc⟩ := hi slot (by simp)
      refine (hab.1.set (hab.2.1 ▸ hss) (some .value)
        fun ty hty => by cases hty; exact .value (.refl _)).bind fun c d hcd => ?_
      refine (hcur hcd.1 (by rwa [Typing.set_other _ _ (Ne.symm hsc)])).bind fun c' d' hcd' => ?_
      exact .goto (List.mem_cons_of_mem _ List.mem_cons_self) hcd'

theorem Activation.endCapture_alike {p buffer dest : Nat} {kind : ContentKind}
    (hb : Γ buffer = some .buffer) (hd : dest < a.template.procedure.layout.size) :
    Paired Q (Action.Alike defers [(p + 1, (Γ.set buffer none).set dest (some .value))])
      (a.endCapture p buffer dest kind) (b.endCapture p buffer dest kind) := by
  obtain ⟨s, hsa, hsb⟩ := h.activation.buffer hb
  simp only [Activation.endCapture, hsa, hsb]
  refine (h.activation.set (h.activation.lt_size hb) none fun ty hty => (by cases hty)).bind
    fun a' b' hab => ?_
  refine (hab.1.set (hab.2.1 ▸ hd) (some .value)
    fun ty hty => by cases hty; exact .value (.refl _)).bind fun c d hcd => ?_
  exact .goto List.mem_cons_self hcd.1

theorem Activation.action_alike {p : Nat} {op : Op}
    (hs : op.Safe (known a.unit) a.template.procedure.layout.size Γ) :
    Paired Q (Action.Alike defers (op.flows p Γ)) (a.action w p op) (b.action x p op) := by
  cases op with
  | text point out s => exact Activation.emit_alike h hs
  | print point out c =>
    refine (Code.result_alike h hs.2).bind fun u v huv => ?_
    rw [huv]
    exact Activation.emit_alike h hs.1
  | store point slot c forces =>
    cases forces with
    | true =>
      refine (Code.result_alike h hs.2).bind fun u v huv => ?_
      rw [huv]
      refine (h.activation.set hs.1 (some .plain)
        fun ty hty => by cases hty; exact .plain).bind fun a' b' hab => ?_
      exact .goto List.mem_cons_self hab.1
    | false =>
      refine (Code.value_alike h hs.2).bind fun u v huv => ?_
      refine (h.activation.set hs.1 (some .value)
        fun ty hty => by cases hty; exact .value huv).bind fun a' b' hab => ?_
      exact .goto List.mem_cons_self hab.1
  | branchUnless point c target =>
    refine (Code.result_alike h hs).bind fun u v huv => ?_
    rw [huv]
    refine .goto (Γ := Γ) ?_ h.activation
    split <;> simp [Op.flows]
  | branchUnlessMatch point subject cases target =>
    obtain ⟨v, hva, hvb⟩ := h.activation.plain hs.1
    simp only [Activation.action, hva, hvb, Except.ok_bind]
    refine (Activation.matched_alike h hs.2).bind fun u v huv => ?_
    rw [huv]
    refine .goto (Γ := Γ) ?_ h.activation
    split <;> simp [Op.flows]
  | jump target => exact .goto List.mem_cons_self h.activation
  | forInit point c list cursor onEmpty =>
    refine (Code.result_alike h hs.2.2.2).bind fun u v huv => ?_
    rw [huv]
    exact Activation.beginLoop_alike h hs.1 hs.2.1
  | forNext list cursor item index exit =>
    exact Activation.nextItem_alike h hs.1 hs.2.1 hs.2.2.2
  | beginCapture buffer =>
    refine (h.activation.set hs (some .buffer)
      fun ty hty => by cases hty; exact .buffer).bind fun a' b' hab => ?_
    exact .goto List.mem_cons_self hab.1
  | endCapture buffer dest kind => exact Activation.endCapture_alike h hs.1 hs.2
  | call point out callee base args =>
    have hw : a.waitingAt? point = b.waitingAt? point := by
      simp only [Activation.waitingAt?, h.activation.waiting]
    simp only [Activation.action, Activation.callAction, hw]
    cases b.waitingAt? point with
    | some c =>
      exact .call List.mem_cons_self { h.activation with waiting := rfl } hs.1 (.refl _)
    | none =>
      refine (Activation.base_alike h hs.2.1).bind fun r q hr => ?_
      refine (Activation.withArgs_alike h hr hs.2.2.1).bind fun r q hr => ?_
      refine (Activation.callee_alike h hs.2.2.2).bind fun t u htu => ?_
      rw [htu]
      cases u with
      | none => exact .goto List.mem_cons_self h.activation
      | some t => exact .call List.mem_cons_self h.activation hs.1 hr

theorem Activation.seeks_alike {op : Op}
    (hs : op.Safe (known a.unit) a.template.procedure.layout.size Γ) :
    a.seeks w op = b.seeks x op := by
  cases op with
  | call point out callee base args =>
    have hw : a.waitingAt? point = b.waitingAt? point := by
      simp only [Activation.waitingAt?, h.activation.waiting]
    simp only [Activation.seeks, hw]
    cases b.waitingAt? point with
    | some c => rfl
    | none =>
      have hargs := (Activation.base_alike h hs.2.1).bind fun r q hr =>
        Activation.withArgs_alike h hr hs.2.2.1
      cases ha : a.base w base >>= fun r => a.withArgs w r args with
      | error e => rw [(hargs.error ha).1]
      | ok r =>
        obtain ⟨q, hb, -⟩ := hargs.ok ha
        rw [hb, Activation.seeking_alike h hs.2.2.2]
  | _ => rfl

end Actions

end ResumableTemplates
