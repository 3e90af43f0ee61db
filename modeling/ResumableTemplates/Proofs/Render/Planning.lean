import ResumableTemplates.Proofs.Render.Answers

/-! What an op does is found out by evaluation, and for a call by finding its callee, which is not put off
once it has begun. -/
namespace ResumableTemplates

def Callee.codes : Callee → List Code
  | .delegate _ v _ => v.toList
  | .template .. => []

def ParamsBase.codes : ParamsBase → List Code
  | .code c => [c]
  | .none | .all => []

def ArgSource.codes : ArgSource → List Code
  | .code c => [c]
  | .slot _ => []

def Op.codes : Op → List Code
  | .print _ _ c | .store _ _ c _ | .branchUnless _ c _ | .forInit _ c .. => [c]
  | .branchUnlessMatch _ _ cs _ => cs
  | .call _ _ callee base args => base.codes ++ args.flatMap (·.2.codes) ++ callee.codes
  | .text .. | .jump _ | .forNext .. | .beginCapture _ | .endCapture .. => []

theorem Activation.plan_of_point?_eq_none {env : Env} {w : World} {a : Activation} {p : Nat}
    {op : Op} (h : op.point? = none) : a.plan env p op = liftM (a.action w p op) := by
  cases op with
  | jump | forNext | endCapture => rfl
  | beginCapture buffer =>
    simp only [plan, action]
    cases a.set buffer (.buffer "") <;> rfl
  | text | print | store | branchUnless | branchUnlessMatch | forInit | call => cases h

section Planning

variable {env : Env} {asks : Nat → Prop} {b : Table Site Binding} {a : Activation}
  (h : a.Ready env asks b)

include h

theorem Activation.matchesAny_answers {subject : Value} {cs : List Code}
    (hc : ∀ c ∈ cs, c.Bears (fun _ => True) (Value.AsksOnly asks)) :
    Answers env asks (env.world b) a.unit [] (a.matchesAny env subject cs)
      (a.matched (env.world b) subject cs) := by
  induction cs with
  | nil => exact .pure
  | cons c cs ih =>
    rw [Activation.matchesAny, Activation.matched]
    refine (Code.eval_answers h (hc c List.mem_cons_self)).bind fun v _ => ?_
    by_cases hv : subject.looseEq v
    · simp only [hv, if_true]
      exact .pure
    · simp only [hv, if_false, Bool.false_eq_true]
      exact ih fun d hd => hc d (List.mem_cons_of_mem _ hd)

theorem Activation.baseRecord_answers {base : ParamsBase}
    (hc : ∀ c ∈ base.codes, c.Bears (fun _ => True) (Value.AsksOnly asks)) :
    Answers env asks (env.world b) a.unit [] (a.baseRecord env base) (a.base (env.world b) base) := by
  cases base with
  | none => exact .pure
  | all => exact .pure
  | code c =>
    rw [Activation.baseRecord, Activation.base]
    exact (Code.eval_answers h (hc c List.mem_cons_self)).bind fun _ _ => .lift

theorem Activation.layArgs_answers {args : List (String × ArgSource)} {r : Record}
    (hc : ∀ c ∈ args.flatMap (·.2.codes), c.Bears (fun _ => True) (Value.AsksOnly asks)) :
    Answers env asks (env.world b) a.unit [] (a.layArgs env r args) (a.withArgs (env.world b) r args) := by
  induction args generalizing r with
  | nil => exact .pure
  | cons arg args ih =>
    have hrest := fun d hd => hc d (by
      rw [List.flatMap_cons]
      exact List.mem_append_right _ hd)
    obtain ⟨name, c | n⟩ := arg
    · rw [Activation.layArgs, Activation.withArgs]
      refine (Code.read_answers h (hc c ?_)).bind fun v _ => ih hrest
      simp [ArgSource.codes]
    · rw [Activation.layArgs, Activation.withArgs]
      exact Answers.lift.bind fun v _ => ih hrest

theorem Activation.findCallee_answers {callee : Callee}
    (hc : ∀ c ∈ callee.codes, c.Bears (fun _ => True) (Value.AsksOnly asks)) :
    Answers env asks (env.world b) a.unit ((a.seeking (env.world b) callee).map .seek)
      (a.findCallee env callee) (a.callee (env.world b) callee) := by
  cases callee with
  | template i name =>
    have hresolve : Comes env asks (env.world b) a.unit _ _ _ :=
      Activation.resolve_comes .call i name
    have hdeeds : (a.seeking (env.world b) (.template i name)).map .seek =
        (Event.resolve (a.site i (.template name)) .call name).deed?.toList ++
          if (env.world b).isLookedUp a.unit a.template.name i name then
            (Event.lookup .call name).deed?.toList else [] := by
      rw [Activation.seeking]
      split <;> rfl
    rw [hdeeds]
    exact (hresolve.answers.followed (g := fun t => .ok (some t)) fun _ => .pure).of_eq rfl
  | delegate name v allowEmpty =>
    rw [Activation.findCallee, Activation.callee, Activation.seeking]
    have hv : Answers env asks (env.world b) a.unit [] (a.variantText env v)
        (a.variant (env.world b) v) := by
      cases v with
      | none => exact .pure
      | some c => exact (Code.eval_answers h (hc c List.mem_cons_self)).bind fun _ _ => .pure
    refine hv.andThen (fun text htext => ?_) fun e he => by rw [he]; rfl
    simp only [htext]
    refine (Comes.noted (e := .select a.unit a.template.name name text) rfl ?_).answers
    dsimp only [Env.world]
    cases env.lookup.delegate? name text with
    | some t => exact .pure
    | none => cases allowEmpty <;> first | exact .pure | exact .fail

theorem Activation.plan_answers {p : Nat} {op : Op}
    (hc : ∀ c ∈ op.codes, c.Bears (fun _ => True) (Value.AsksOnly asks)) :
    Answers env asks (env.world b) a.unit (a.seeks (env.world b) op) (a.plan env p op)
      (a.action (env.world b) p op) := by
  cases op with
  | text point out s => exact .lift
  | print point out c =>
    rw [Activation.plan, Activation.action]
    exact (Code.eval_answers h (hc c List.mem_cons_self)).bind fun _ _ => .lift
  | store point slot c forces =>
    rw [Activation.plan, Activation.action]
    cases forces with
    | true =>
      exact (Code.eval_answers h (hc c List.mem_cons_self)).bind fun _ _ =>
        Answers.lift.bind fun _ _ => .pure
    | false =>
      exact (Code.read_answers h (hc c List.mem_cons_self)).bind fun _ _ =>
        Answers.lift.bind fun _ _ => .pure
  | branchUnless point c target =>
    rw [Activation.plan, Activation.action]
    exact (Code.eval_answers h (hc c List.mem_cons_self)).bind fun _ _ => .pure
  | branchUnlessMatch point subject cases target =>
    rw [Activation.plan, Activation.action]
    exact Answers.lift.bind fun v _ => (Activation.matchesAny_answers h hc).bind fun _ _ => .pure
  | jump target => exact .pure
  | forInit point c list cursor onEmpty =>
    rw [Activation.plan, Activation.action]
    exact (Code.eval_answers h (hc c List.mem_cons_self)).bind fun _ _ => .lift
  | forNext list cursor item index exit => exact .lift
  | beginCapture buffer => exact Answers.lift.bind fun _ _ => .pure
  | endCapture buffer dest kind => exact .lift
  | call point out callee base args =>
    rw [Activation.plan, Activation.action, Activation.planCall, Activation.callAction]
    cases hwait : a.waitingAt? point with
    | some c =>
      rw [Activation.seeks_of_waiting _ _ (by rw [hwait]; exact Option.some_ne_none c)]
      exact .pure
    | none =>
      simp only [Op.codes, List.mem_append] at hc
      simp only [Activation.seeks, hwait]
      refine (Activation.baseRecord_answers h fun c hd => hc c (.inl (.inl hd))).andThen
        (fun r hr => ?_) fun e he => by rw [he]; rfl
      refine (Activation.layArgs_answers h fun c hd => hc c (.inl (.inr hd))).andThen
        (fun q hq => ?_) fun e he => by rw [hr, Except.ok_bind, he]
      simp only [hr, hq, Except.ok_bind]
      refine (Activation.findCallee_answers h fun c hd => hc c (.inr hd)).followed fun t => ?_
      cases t with
      | none => exact .pure
      | some t => exact .pure

end Planning

end ResumableTemplates
