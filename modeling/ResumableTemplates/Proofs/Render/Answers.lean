import ResumableTemplates.Proofs.Render.Evaluation

/-! A computation answers a result of the render's world if it comes to that or is put off on the
way, before it does anything to be seen. Evaluation does, and stops for good only where the unit is gone
that it is done for. -/
namespace ResumableTemplates

def RenderError.IsDrop : RenderError → Prop
  | .internal _ .unitDropped | .internal _ .calleeDropped => True
  | _ => False

def Env.Drops (env : Env) (asks : Nat → Prop) (unit : Nat) (s : RenderState)
    (r : Except Stop α × RenderState) : Prop :=
  env.isAlive unit = false ∧ ∃ e deeds t, e.IsDrop ∧ Wrote env asks deeds s t ∧
    r = (.error (.failure e), t)

namespace Env.Drops

variable {env : Env} {asks : Nat → Prop} {unit : Nat} {s t : RenderState}

theorem bind {r : Render α} (h : env.Drops asks unit s (r s)) (f : α → Render β) :
    env.Drops asks unit s ((r >>= f) s) := by
  obtain ⟨hdead, e, deeds, t, he, hw, hr⟩ := h
  exact ⟨hdead, e, deeds, t, he, hw, by rw [Render.bind_apply, hr]⟩

theorem after {x : Except Stop α × RenderState} {deeds : List Deed}
    (h : env.Drops asks unit t x) (hst : Wrote env asks deeds s t) : env.Drops asks unit s x := by
  obtain ⟨hdead, e, deeds', u, he, hw, hr⟩ := h
  exact ⟨hdead, e, deeds ++ deeds', u, he, hst.trans hw, hr⟩

theorem contradiction {a : Activation} {i : Inconsistency} (hdead : env.isAlive unit = false)
    (hi : (RenderError.internal a.template.name i).IsDrop) :
    env.Drops asks unit s ((liftM (a.contradiction i) : Render α) s) :=
  ⟨hdead, _, [], s, hi, .refl, Render.liftM_apply _ s⟩

end Env.Drops

section

variable (env : Env) (asks : Nat → Prop) (w : World) (unit : Nat) (deeds : List Deed)

/-- Holds if a computation comes to a result, and its deeds are all that it leaves to see. -/
def Comes (r : Render α) (x : Except RenderError α) : Prop :=
  ∀ s, env.world s.bindings = w →
    (∃ t, Wrote env asks deeds s t ∧ r s = (Render.ending x, t)) ∨ env.Drops asks unit s (r s)

/-- Holds if a computation comes to a result, or is put off and leaves nothing to see. -/
def Answers (r : Render α) (x : Except RenderError α) : Prop :=
  ∀ s, env.world s.bindings = w →
    (∃ t, Wrote env asks deeds s t ∧ r s = (Render.ending x, t)) ∨
    (∃ t why, Wrote env asks [] s t ∧ Pays env asks s t ∧ r s = (.error (.pause why), t)) ∨
    env.Drops asks unit s (r s)

end

section

variable {env : Env} {asks : Nat → Prop} {w : World} {unit : Nat} {deeds : List Deed}
  {r : Render α} {x : Except RenderError α}

namespace Comes

theorem pure {a : α} : Comes env asks w unit [] (pure a) (.ok a) :=
  fun s _ => .inl ⟨s, .refl, rfl⟩

theorem fail {e : RenderError} : Comes env asks w unit [] (Render.fail e : Render α) (.error e) :=
  fun s _ => .inl ⟨s, .refl, rfl⟩

theorem lift {x : Except RenderError α} : Comes env asks w unit [] (liftM x : Render α) x :=
  fun s _ => .inl ⟨s, .refl, Render.liftM_apply x s⟩

theorem from_state (h : ∀ s, env.world s.bindings = w → (∃ t, Wrote env asks [] s t ∧ ∃ q,
      Comes env asks w unit deeds q x ∧ r s = q t) ∨ env.Drops asks unit s (r s)) :
    Comes env asks w unit deeds r x := by
  intro s hs
  obtain ⟨t, ht, q, hq, he⟩ | hd := h s hs
  · rw [he]
    obtain ⟨u, hu, hr⟩ | hd := hq t (ht.world.trans hs)
    · exact .inl ⟨u, ht.trans hu, hr⟩
    · exact .inr (hd.after ht)
  · exact .inr hd

theorem noted {e : Event} (he : e.chunk? = none) (h : Comes env asks w unit deeds r x) :
    Comes env asks w unit (e.deed?.toList ++ deeds) (Render.note e >>= fun _ => r) x := by
  intro s hs
  have hnote : Wrote env asks e.deed?.toList s { s with events := e :: s.events } := .note he
  obtain ⟨u, hu, hr⟩ | hd := h _ (hnote.world.trans hs)
  · exact .inl ⟨u, hnote.trans hu, hr⟩
  · exact .inr (hd.after hnote)

theorem answers (h : Comes env asks w unit deeds r x) : Answers env asks w unit deeds r x :=
  fun s hs => (h s hs).imp_right .inr

end Comes

namespace Answers

theorem lift {x : Except RenderError α} : Answers env asks w unit [] (liftM x : Render α) x :=
  Comes.lift.answers

theorem pure {a : α} : Answers env asks w unit [] (pure a) (.ok a) := Comes.pure.answers

theorem after {s t : RenderState} (h : Answers env asks w unit deeds r x)
    (ht : Wrote env asks [] s t) (hs : env.world s.bindings = w) :
    (∃ u, Wrote env asks deeds s u ∧ r t = (Render.ending x, u)) ∨
    (∃ u why, Wrote env asks [] s u ∧ Pays env asks s u ∧ r t = (.error (.pause why), u)) ∨
    env.Drops asks unit s (r t) := by
  obtain ⟨u, hu, hr⟩ | ⟨u, why, hu, hp, hr⟩ | hd := h t (ht.world.trans hs)
  · exact .inl ⟨u, ht.trans hu, hr⟩
  · exact .inr (.inl ⟨u, why, ht.trans hu, ht.spends.pays hp, hr⟩)
  · exact .inr (.inr (hd.after ht))

theorem andThen {f : α → Render β} {g : α → Except RenderError β} (h : Answers env asks w unit [] r x)
    (hf : ∀ a, x = .ok a → Answers env asks w unit deeds (f a) (g a))
    (he : ∀ e, x = .error e → deeds = []) :
    Answers env asks w unit deeds (r >>= f) (x >>= g) := by
  intro s hs
  obtain ⟨t, ht, hr⟩ | ⟨t, why, ht, hp, hr⟩ | hd := h s hs
  · cases x with
    | error e => exact .inl ⟨t, he e rfl ▸ ht, by rw [Render.bind_apply, hr]; rfl⟩
    | ok a =>
      have hfa : (r >>= f) s = f a t := by rw [Render.bind_apply, hr]; rfl
      rw [hfa]
      exact (hf a rfl).after ht hs
  · exact .inr (.inl ⟨t, why, ht, hp, by rw [Render.bind_apply, hr]⟩)
  · exact .inr (.inr (hd.bind f))

theorem bind {f : α → Render β} {g : α → Except RenderError β} (h : Answers env asks w unit [] r x)
    (hf : ∀ a, x = .ok a → Answers env asks w unit [] (f a) (g a)) :
    Answers env asks w unit [] (r >>= f) (x >>= g) :=
  h.andThen hf fun _ _ => rfl

theorem followed {f : α → Render β} {g : α → Except RenderError β}
    (h : Answers env asks w unit deeds r x) (hf : ∀ a, Comes env asks w unit [] (f a) (g a)) :
    Answers env asks w unit deeds (r >>= f) (x >>= g) := by
  intro s hs
  obtain ⟨t, ht, hr⟩ | ⟨t, why, ht, hp, hr⟩ | hd := h s hs
  · cases x with
    | error e => exact .inl ⟨t, ht, by rw [Render.bind_apply, hr]; rfl⟩
    | ok a =>
      have hfa : (r >>= f) s = f a t := by rw [Render.bind_apply, hr]; rfl
      rw [hfa]
      obtain ⟨u, hu, hb⟩ | hd := hf a t (ht.world.trans hs)
      · exact .inl ⟨u, ht.append_nil hu, hb⟩
      · exact .inr (.inr (hd.after ht))
  · exact .inr (.inl ⟨t, why, ht, hp, by rw [Render.bind_apply, hr]⟩)
  · exact .inr (.inr (hd.bind f))

theorem of_eq {q : Render α} (h : Answers env asks w unit deeds q x) (he : r = q) :
    Answers env asks w unit deeds r x :=
  he ▸ h

theorem ask (env : Env) {p : Nat} (h : asks p) (s : RenderState) : ∃ isReady t,
    Render.ask env p s = (.ok isReady, t) ∧ Wrote env asks [] s t ∧
      (isReady = false → Pays env asks s t) := by
  obtain ⟨isReady, forces, he⟩ : ∃ r f, askProvider (env.isReady p) p s.forces = (r, f) :=
    ⟨_, _, rfl⟩
  have hrun : Render.ask env p s = (.ok isReady,
      { s with forces := forces, events := .force p isReady :: s.events }) := by
    simp [Render.ask, Render.bind_apply, he]
  refine ⟨_, _, hrun, .silent rfl ?_ rfl rfl rfl ?_, ?_⟩
  · exact RenderState.deeds_quiet rfl { s with forces := forces }
  · intro b hb
    have := (b.ask p s.forces h).1
    simp only [he] at this
    exact ⟨hb, by simp only [Budget.left]; omega⟩
  · intro hr b hb
    have := (b.ask p s.forces h).2 (by rw [he]; exact hr)
    simp only [he] at this
    simp only [Budget.left]
    omega

theorem force {v : Value} (h : v.AsksOnly asks) :
    Answers env asks w unit [] (Render.force env v) (.ok v.forced) := by
  induction v using Value.forced.induct with
  | case1 i v ih =>
    intro s hs
    obtain ⟨isReady, t, ha, ht, hp⟩ := ask env h.1 s
    have he : Render.force env (.lazy i v) s =
        (if isReady then Render.force env v else throw (.pause .valueNotReady)) t := by
      rw [Render.force, Render.bind_apply, ha]
    cases isReady with
    | true =>
      rw [he]
      exact (ih h.2).after ht hs
    | false => exact .inr (.inl ⟨t, _, ht, hp rfl, by rw [he]; rfl⟩)
  | case2 v hl =>
    cases v with
    | lazy i v => exact absurd rfl (hl i v)
    | _ => exact pure

theorem bindForced {r : Render Value} {x : Except RenderError Value} {f : Value → Render β}
    {g : Value → Except RenderError β} (h : Answers env asks w unit [] r x)
    (hx : ∀ v, x = .ok v → v.AsksOnly asks)
    (hf : ∀ v, x = .ok v → Answers env asks w unit [] (f v.forced) (g v)) :
    Answers env asks w unit [] (Render.forced env r >>= f) (x >>= g) := by
  have hb : Answers env asks w unit [] (r >>= fun v => Render.force env v >>= f) (x >>= g) := by
    refine h.bind fun v hv => ?_
    have hforce : Answers env asks w unit [] (Render.force env v) (.ok v.forced) := force (hx v hv)
    exact hforce.bind (g := fun _ => g v) fun u hu => by cases hu; exact hf v hv
  refine hb.of_eq (funext fun s => ?_)
  simp only [Render.forced, Render.bind_apply]
  rcases r s with ⟨_ | _, _⟩ <;> rfl

theorem forced {r : Render Value} {x : Except RenderError Value} (h : Answers env asks w unit [] r x)
    (hx : ∀ v, x = .ok v → v.AsksOnly asks) :
    Answers env asks w unit [] (Render.forced env r) (do return (← x).forced) :=
  h.bind fun v hv => force (hx v hv)

end Answers

end

namespace Activation

variable {env : Env} {asks : Nat → Prop} {w : World} {unit : Nat} {a : Activation}

theorem lookUp_comes (use : Use) (name : String) :
    Comes env asks w unit (Event.lookup use name).deed?.toList (lookUp env use name)
      (env.lookUp name) := by
  rw [← List.append_nil (Event.lookup use name).deed?.toList]
  refine .noted rfl ?_
  unfold Env.lookUp
  cases env.lookup.template? name with
  | none => exact .fail
  | some t => exact .pure

theorem lookUpElement_comes (table : String) (id : UInt64) :
    Comes env asks w unit [] (lookUpElement env table id) (env.lookUpElement table id) := by
  refine .noted (e := .describe table id) rfl ?_
  unfold Env.lookUpElement
  cases env.lookup.element? table id with
  | none => exact .fail
  | some t => exact .pure

theorem world_insert_template {bindings : Table Site Binding} {unit index : Nat}
    {template name : String} {b : Binding}
    (hn : bindings.find? ⟨unit, template, index, .template name⟩ = none)
    (hb : b = if (env.library.compiled? unit name).isSome then .direct else .fallback) :
    env.world (bindings.insert ⟨unit, template, index, .template name⟩ b) = env.world bindings := by
  simp only [Env.world, Table.find?_insert, World.mk.injEq, true_and]
  refine ⟨?_, by simp, ?_⟩
  all_goals
    funext u t i n
    by_cases h : (⟨u, t, i, .template n⟩ : Site) = ⟨unit, template, index, .template name⟩
    · obtain ⟨rfl, rfl, rfl, hn'⟩ := Site.mk.inj h
      cases hn'
      rw [if_pos rfl, hn, hb]
      cases env.library.compiled? u name <;> rfl
    · rw [if_neg h]

theorem world_insert_element {bindings : Table Site Binding} {unit index : Nat}
    {template table : String} {id : UInt64} {b : Binding}
    (hn : bindings.find? ⟨unit, template, index, .element table id⟩ = none)
    (hb : (∃ m, b = .described m ∧ env.library.own unit table id = some (some m)) ∨
      b = .fallback ∧ env.library.own unit table id = none) :
    env.world (bindings.insert ⟨unit, template, index, .element table id⟩ b) =
      env.world bindings := by
  simp only [Env.world, Table.find?_insert, World.mk.injEq, true_and]
  refine ⟨by simp, ?_, by simp⟩
  funext u t i tb n
  by_cases h : (⟨u, t, i, .element tb n⟩ : Site) = ⟨unit, template, index, .element table id⟩
  · obtain ⟨rfl, rfl, rfl, hn'⟩ := Site.mk.inj h
    cases hn'
    rw [if_pos rfl, hn]
    obtain ⟨m, rfl, hm⟩ | ⟨rfl, hm⟩ := hb
    · simp [hm]
    · simp [hm]
  · rw [if_neg h]

theorem bind_wrote {site : Site} {b : Binding} {s : RenderState}
    (h : env.world (s.bindings.insert site b) = env.world s.bindings) :
    Wrote env asks [] s { s with bindings := s.bindings.insert site b } :=
  .silent rfl rfl rfl rfl h (.of_eq rfl rfl rfl)

theorem resolve_comes (use : Use) (i : Nat) (name : String) :
    Comes env asks w a.unit ((Event.resolve (a.site i (.template name)) use name).deed?.toList ++
        if w.isLookedUp a.unit a.template.name i name then (Event.lookup use name).deed?.toList
        else [])
      (a.resolve env use i name) (w.template a.unit a.template.name i name) := by
  refine .noted rfl (.from_state fun s hs => ?_)
  subst hs
  rw [Env.world_template, Render.bind_apply, Render.get_apply]
  cases hb : s.bindings.find? (a.site i (.template name)) with
  | some b =>
    cases b with
    | described m =>
      have hlooked : (env.world s.bindings).isLookedUp a.unit a.template.name i name = true := by
        simp only [Env.world, ← site.eq_def, hb]
      rw [hlooked]
      exact .inl ⟨s, .refl, lookUp env use name, lookUp_comes use name, by simp only [hb]⟩
    | direct =>
      have hlooked : (env.world s.bindings).isLookedUp a.unit a.template.name i name = false := by
        simp only [Env.world, ← site.eq_def, hb]
      rw [hlooked]
      by_cases hthere : a.isThere env s a.unit name
      · refine .inl ⟨s, .refl, Pure.pure (.compiled a.unit name), .pure, ?_⟩
        simp [hb, hthere]
      · have hdead : env.isAlive a.unit = false := by
          simp only [isThere, Bool.or_eq_true, not_or, Bool.not_eq_true] at hthere
          exact hthere.1.1.1.1
        refine .inr ?_
        simp only [hb, hthere]
        exact .contradiction hdead trivial
    | fallback =>
      have hlooked : (env.world s.bindings).isLookedUp a.unit a.template.name i name = true := by
        simp only [Env.world, ← site.eq_def, hb]
      rw [hlooked]
      exact .inl ⟨s, .refl, lookUp env use name, lookUp_comes use name, by simp only [hb]⟩
  | none =>
    have hlooked : (env.world s.bindings).isLookedUp a.unit a.template.name i name =
        (env.library.compiled? a.unit name).isNone := by
      simp only [Env.world, ← site.eq_def, hb]
    rw [hlooked]
    cases hu : env.isAlive a.unit with
    | false =>
      refine .inr ?_
      simp only [hb]
      exact .contradiction hu trivial
    | true =>
      cases hc : env.library.compiled? a.unit name with
      | some t =>
        refine .inl ⟨_, bind_wrote (world_insert_template hb rfl), Pure.pure (.compiled a.unit name),
          .pure, ?_⟩
        simp [hb, hc, bind, Render.bind_apply]
        rfl
      | none =>
        refine .inl ⟨_, bind_wrote (world_insert_template hb rfl), lookUp env use name,
          lookUp_comes use name, ?_⟩
        simp [hb, hc, bind, Render.bind_apply]
        rfl

theorem literal_answers (i : Nat) (name : String) :
    Answers env asks w a.unit [] (a.resolve env .literal i name)
      (w.template a.unit a.template.name i name) := by
  have h : Comes env asks w a.unit _ _ _ := resolve_comes .literal i name
  have hnone : ∀ c : Bool, (if c then (Event.lookup .literal name).deed?.toList else []) = [] := by
    intro c
    cases c <;> rfl
  rw [hnone] at h
  exact h.answers

theorem describe_comes (i : Nat) (table : String) (id : UInt64) :
    Comes env asks w a.unit [] (a.describe env i table id)
      (w.element a.unit a.template.name i table id) := by
  refine .from_state fun s hs => ?_
  subst hs
  simp only [describe, Env.world, site]
  rw [Render.bind_apply, Render.get_apply]
  have hown : ((env.library.units[a.unit]?).bind (·.tables.find? table)).map (·.find? id) =
    env.library.own a.unit table id := rfl
  simp only [hown]
  cases hb : s.bindings.find? ⟨a.unit, a.template.name, i, .element table id⟩ with
  | some b =>
    cases b with
    | described m => exact .inl ⟨s, .refl, _, .pure, rfl⟩
    | direct => exact .inl ⟨s, .refl, _, lookUpElement_comes table id, rfl⟩
    | fallback => exact .inl ⟨s, .refl, _, lookUpElement_comes table id, rfl⟩
  | none =>
    cases hu : env.isAlive a.unit with
    | false =>
      exact .inr (.contradiction hu trivial)
    | true =>
      cases ho : env.library.own a.unit table id with
      | none =>
        refine .inl ⟨_, bind_wrote (world_insert_element hb (.inr ⟨rfl, ho⟩)), _,
          lookUpElement_comes table id, ?_⟩
        simp [bind, Render.bind_apply]
      | some o =>
        cases o with
        | none =>
          refine .inl ⟨s, .refl, _, .lift, ?_⟩
          simp [contradiction]
        | some m =>
          refine .inl ⟨_, bind_wrote (world_insert_element hb (.inl ⟨m, rfl, ho⟩)), _, .pure, ?_⟩
          simp [bind, Render.bind_apply]

end Activation

abbrev Activation.Ready (env : Env) (asks : Nat → Prop) (b : Table Site Binding) (a : Activation) :
    Prop :=
  Supply (fun _ => True) (Value.AsksOnly asks) (env.world b) a

section Evaluation

variable {env : Env} {asks : Nat → Prop} {b : Table Site Binding} {a : Activation}
  (h : a.Ready env asks b)

include h

mutual

theorem Code.read_answers : {c : Code} → c.Bears (fun _ => True) (Value.AsksOnly asks) →
    Answers env asks (env.world b) a.unit [] (c.read env a) (c.value (env.world b) a)
  | .const v, _ => .pure
  | .slot n, _ => .lift
  | .injected name, _ => .pure
  | .binary op l r, hc => by
    have hl : l.Bears (fun _ => True) (Value.AsksOnly asks) :=
      fun d hd => hc d (by simp [parts, hd])
    have hr : r.Bears (fun _ => True) (Value.AsksOnly asks) :=
      fun d hd => hc d (by simp [parts, hd])
    rw [Code.read, Code.value]
    refine (Code.read_answers hl).bindForced (fun v => Code.value_closed h hl) fun x _ => ?_
    cases hd : op.decidedBy? x.forced with
    | some v =>
      simp only [hd]
      exact .pure
    | none =>
      simp only [hd]
      exact (Code.read_answers hr).bindForced (fun v => Code.value_closed h hr)
        fun y _ => .lift
  | .unary op e, hc => by
    have he : e.Bears (fun _ => True) (Value.AsksOnly asks) :=
      fun d hd => hc d (by simp [parts, hd])
    rw [Code.read, Code.value]
    exact (Code.read_answers he).bindForced (fun v => Code.value_closed h he) fun x _ => .lift
  | .cond c t e, hc => by
    have hc' : c.Bears (fun _ => True) (Value.AsksOnly asks) :=
      fun d hd => hc d (by simp [parts, hd])
    have ht : t.Bears (fun _ => True) (Value.AsksOnly asks) :=
      fun d hd => hc d (by simp [parts, hd])
    have he : e.Bears (fun _ => True) (Value.AsksOnly asks) :=
      fun d hd => hc d (by simp [parts, hd])
    rw [Code.read, Code.value]
    refine (Code.read_answers hc').bindForced (fun v => Code.value_closed h hc')
      fun x _ => ?_
    by_cases hx : x.forced.isTruthy
    · simp only [hx, if_true]
      exact (Code.read_answers ht).forced fun v => Code.value_closed h ht
    · simp only [hx, if_false, Bool.false_eq_true]
      exact (Code.read_answers he).forced fun v => Code.value_closed h he
  | .list cs, hc => by
    rw [Code.read, Code.value]
    exact (Code.readAll_answers fun d hd => hc d (by simp [parts, hd])).bind fun _ _ => .pure
  | .record fs, hc => by
    rw [Code.read, Code.value]
    exact (Code.readFields_answers fun d hd => hc d (by simp [parts, hd])).bind fun _ _ => .pure
  | .field base n s, hc => by
    have hb : base.Bears (fun _ => True) (Value.AsksOnly asks) :=
      fun d hd => hc d (by simp [parts, hd])
    rw [Code.read, Code.value]
    exact (Code.read_answers hb).bindForced (fun v => Code.value_closed h hb) fun x _ => .lift
  | .index base k, hc => by
    have hb : base.Bears (fun _ => True) (Value.AsksOnly asks) :=
      fun d hd => hc d (by simp [parts, hd])
    have hk : k.Bears (fun _ => True) (Value.AsksOnly asks) :=
      fun d hd => hc d (by simp [parts, hd])
    rw [Code.read, Code.value]
    exact (Code.read_answers hb).bindForced (fun v => Code.value_closed h hb) fun x _ =>
      (Code.read_answers hk).bindForced (fun v => Code.value_closed h hk) fun y _ => .lift
  | .builtin f cs, hc => by
    rw [Code.read, Code.value]
    exact (Code.readAll_answers fun d hd => hc d (by simp [parts, hd])).bind fun _ _ => .lift
  | .template i name, _ => by
    rw [Code.read, Code.value]
    exact (Activation.literal_answers i name).bind fun _ _ => .pure
  | .element id name none, _ => by
    rw [Code.read, Code.value]
    exact .pure
  | .element id name (some (i, table)), _ => by
    rw [Code.read, Code.value]
    exact (Activation.describe_comes i table id).answers.bind fun _ _ => .pure

theorem Code.readAll_answers : {cs : List Code} →
    (∀ d ∈ Code.partsAll cs, match d with
      | .const v => v.AsksOnly asks
      | .list _ => True
      | _ => True) →
    Answers env asks (env.world b) a.unit [] (Code.readAll env a cs) (Code.values (env.world b) a cs)
  | [], _ => .pure
  | c :: cs, hc => by
    have hd : c.Bears (fun _ => True) (Value.AsksOnly asks) :=
      fun d hd => hc d (by simp [partsAll, hd])
    rw [Code.readAll, Code.values]
    exact (Code.read_answers hd).bindForced (fun v => Code.value_closed h hd) fun x _ =>
      (Code.readAll_answers fun d hd => hc d (by simp [partsAll, hd])).bind fun _ _ => .pure

theorem Code.readFields_answers : {cs : List (String × Code)} →
    (∀ d ∈ Code.partsFields cs, match d with
      | .const v => v.AsksOnly asks
      | .list _ => True
      | _ => True) →
    Answers env asks (env.world b) a.unit [] (Code.readFields env a cs) (Code.fields (env.world b) a cs)
  | [], _ => .pure
  | (k, c) :: cs, hc => by
    have hd : c.Bears (fun _ => True) (Value.AsksOnly asks) :=
      fun d hd => hc d (by simp [partsFields, hd])
    rw [Code.readFields, Code.fields]
    exact (Code.read_answers hd).bindForced (fun v => Code.value_closed h hd) fun x _ =>
      (Code.readFields_answers fun d hd => hc d (by simp [partsFields, hd])).bind fun _ _ => .pure

end

theorem Code.eval_answers {c : Code} (hc : c.Bears (fun _ => True) (Value.AsksOnly asks)) :
    Answers env asks (env.world b) a.unit [] (c.eval env a) (c.result (env.world b) a) :=
  (Code.read_answers h hc).forced fun _ => Code.value_closed h hc

end Evaluation

end ResumableTemplates
