import ResumableTemplates.Proofs.Render.Twins
import ResumableTemplates.Proofs.Render.OneShot

/-! Renders of twins go in step: op by op they do the same, so they pause at the same ops, for the
same reasons, and save twins. -/
namespace ResumableTemplates

def Library.Portable (l : Library) : Prop :=
  ∀ i name c, l.compiled? i name = some c → ∀ op ∈ c.procedure.ops, op.Portable

variable {l m : Library}

section Twins

variable (l m : Library)

inductive Action.Twin : Action → Action → Prop
  | goto : Activation.Twin l m a b → Twin (.goto q a) (.goto q b)
  | write : Activation.Twin l m a b → Twin (.write text q a) (.write text q b)
  | call : TemplateRef.Twin l m t u → Option.Rel (Frames.Twin l m) f g → Record.Same r r' →
      Activation.Twin l m a b → Twin (.call out t f r q a) (.call out u g r' q b)

inductive Progress.Twin : Progress → Progress → Prop
  | goto : Activation.Twin l m a b → Twin (.goto q a) (.goto q b)
  | paused : Activation.Twin l m a b → List.Forall₂ (PendingCall.Twin l m) cs ds →
      Twin (.paused why a cs) (.paused why b ds)

inductive FrameOutcome.Twin : FrameOutcome → FrameOutcome → Prop
  | done : Twin .done .done
  | paused : Frames.Twin l m f g → Twin (.paused f why) (.paused g why)

inductive Standing.Twin : Standing → Standing → Prop
  | ended : FrameOutcome.Twin l m o o' → Twin (.ended o) (.ended o')
  | running : Activation.Twin l m a b → Twin (.running q a) (.running q b)

def Runner.Twin (run run' : Runner) : Prop :=
  ∀ t u f g r r' held held', TemplateRef.Twin l m t u → Option.Rel (Frames.Twin l m) f g →
    Record.Same r r' → Render.Twin l m (FrameOutcome.Twin l m) (run t f r held) (run' u g r' held')

end Twins

namespace Activation.Twin

variable {a b : Activation} (hab : Activation.Twin l m a b)

include hab

theorem emit (out : Output) (text : String) (q : Nat) :
    Paired (fun _ => True) (Action.Twin l m) (a.emit out text q) (b.emit out text q) := by
  cases out with
  | sink => exact Action.Twin.write hab
  | buffer slot =>
    refine (hab.buffer slot).bind fun x y hxy => ?_
    subst hxy
    exact (hab.set slot .buffer).bind fun c d hcd => Action.Twin.goto hcd

theorem beginLoop (p list cursor : Nat) (onEmpty : Option Nat) {v u : Value} (hv : v.Same u) :
    Paired (fun _ => True) (Action.Twin l m) (a.beginLoop p list cursor onEmpty v)
      (b.beginLoop p list cursor onEmpty u) := by
  have hsame := hv
  cases v <;> cases u <;> simp only [Value.Same, Value.bare, reduceCtorEq] at hv
  case list vs us =>
    refine (hab.set list (.value hsame)).bind fun c d hcd => ?_
    refine (hcd.set cursor .cursor).bind fun c d hcd => ?_
    have hempty : vs = [] ↔ us = [] := by
      have := congrArg List.length (Value.list.inj hv)
      rw [Value.bareAll_eq_map, Value.bareAll_eq_map, List.length_map, List.length_map] at this
      rw [← List.length_eq_zero_iff, ← List.length_eq_zero_iff, this]
    cases onEmpty with
    | none => exact Action.Twin.goto hcd
    | some target =>
      cases vs <;> cases us <;> simp only [reduceCtorEq, iff_false, iff_true, not_true] at hempty
      · exact Action.Twin.goto hcd
      · exact Action.Twin.goto hcd
  all_goals exact ⟨rfl, trivial⟩

theorem nextItem (p list cursor item : Nat) (index : Option Nat) (exit : Nat) :
    Paired (fun _ => True) (Action.Twin l m) (a.nextItem p list cursor item index exit)
      (b.nextItem p list cursor item index exit) := by
  refine (hab.cursor cursor).bind fun n n' hn => ?_
  subst hn
  refine (hab.value list).bind fun v u hv => ?_
  cases v <;> cases u <;> simp only [Value.Same, Value.bare, reduceCtorEq] at hv
  case list vs us =>
    have hitem : (vs[n]?).map Value.bare = (us[n]?).map Value.bare := by
      rw [← List.getElem?_map, ← List.getElem?_map, ← Value.bareAll_eq_map, ← Value.bareAll_eq_map,
        Value.list.inj hv]
    dsimp only
    cases hx : vs[n]? <;> cases hy : us[n]? <;> rw [hx, hy] at hitem
    · exact Action.Twin.goto hab
    · cases hitem
    · cases hitem
    · refine (hab.set item (.value (Option.some.inj hitem))).bind fun c d hcd => ?_
      cases index with
      | none => exact (hcd.set cursor .cursor).bind fun c d hcd => Action.Twin.goto hcd
      | some slot =>
        exact (hcd.set slot (.value (.refl _))).bind fun c d hcd =>
          (hcd.set cursor .cursor).bind fun c d hcd => Action.Twin.goto hcd
  all_goals exact hab.contradiction _

theorem endCapture (p buffer dest : Nat) (kind : ContentKind) :
    Paired (fun _ => True) (Action.Twin l m) (a.endCapture p buffer dest kind)
      (b.endCapture p buffer dest kind) := by
  have hslot := hab.slot buffer
  unfold Activation.endCapture
  generalize a.locals[buffer]? = x, b.locals[buffer]? = y at hslot
  obtain ⟨_ | _ | _ | _⟩ | _ := hslot
  case some.buffer =>
    exact (hab.set buffer .unset).bind fun c d hcd =>
      (hcd.set dest (.value (.refl _))).bind fun c d hcd => Action.Twin.goto hcd
  all_goals exact hab.contradiction _

theorem waitingAt (point : Nat) : Option.Rel
    (fun c d => PendingCall.Twin l m c.1 d.1 ∧ List.Forall₂ (PendingCall.Twin l m) c.2 d.2)
    (a.waitingAt? point) (b.waitingAt? point) := by
  have hwait := hab.waiting
  unfold Activation.waitingAt?
  generalize a.waiting = x, b.waiting = y at hwait
  cases hwait with
  | none => exact .none
  | @some x y hxy =>
    obtain ⟨n, cs⟩ := x
    obtain ⟨k, ds⟩ := y
    obtain ⟨rfl, hcs⟩ := hxy
    cases hcs with
    | nil => exact .none
    | cons hc hcs =>
      by_cases hn : n = point
      · subst hn
        simp only [if_true]
        exact .some ⟨hc, hcs⟩
      · simp only [hn, if_false]
        exact .none

theorem reached : Activation.Twin l m { a with waiting := none } { b with waiting := none } :=
  { hab with waiting := .none }

end Activation.Twin

section Evaluation

variable {e f : Env} {a b : Activation} (hef : Env.Twin l m e f) (hab : Activation.Twin l m a b)

include hef hab

theorem Code.eval_twin {c : Code} (hc : c.Portable) :
    Render.Twin l m Value.Same (c.eval e a) (c.eval f b) :=
  .forced hef.isReady (Code.read_twin hef hab hc)

namespace Activation.Twin

theorem matchesAny {cs : List Code} (hc : ∀ c ∈ cs, c.Portable) {v u : Value} (hv : v.Same u) :
    Render.Twin l m Eq (a.matchesAny e v cs) (b.matchesAny f u cs) := by
  induction cs with
  | nil => exact .pure rfl
  | cons c cs ih =>
    refine (Code.eval_twin hef hab (hc c List.mem_cons_self)).bind fun x y hxy => ?_
    rw [hv.looseEq hxy]
    split
    · exact .pure rfl
    · exact ih fun d hd => hc d (List.mem_cons_of_mem _ hd)

theorem baseRecord {base : ParamsBase} (hc : ∀ c ∈ base.codes, c.Portable) :
    Render.Twin l m Record.Same (a.baseRecord e base) (b.baseRecord f base) := by
  cases base with
  | none => exact .pure rfl
  | all => exact .pure hab.params
  | code c =>
    refine (Code.eval_twin hef hab (hc c List.mem_cons_self)).bind fun v u hv => .lift ?_
    cases v <;> cases u <;> simp only [Value.Same, Value.bare, reduceCtorEq] at hv
    case null => exact rfl
    case record => exact Value.record.inj hv
    all_goals exact ⟨rfl, trivial⟩

theorem layArgs {args : List (String × ArgSource)}
    (hc : ∀ c ∈ args.flatMap (·.2.codes), c.Portable) {r q : Record} (hr : Record.Same r q) :
    Render.Twin l m Record.Same (a.layArgs e r args) (b.layArgs f q args) := by
  induction args generalizing r q with
  | nil => exact .pure hr
  | cons arg args ih =>
    have ih := @ih fun c hmem => hc c (List.mem_append_right _ hmem)
    obtain ⟨name, c | n⟩ := arg
    · exact (Code.read_twin hef hab (hc c List.mem_cons_self)).bind
        fun v u hv => ih (hr.insert name hv)
    · exact (Render.Twin.lift (hab.value n)).bind fun v u hv => ih (hr.insert name hv)

theorem variantText {variant : Option Code} (hc : ∀ c, variant = some c → c.Portable) :
    Render.Twin l m Eq (a.variantText e variant) (b.variantText f variant) := by
  cases variant with
  | none => exact .pure rfl
  | some c =>
    refine (Code.eval_twin hef hab (hc c rfl)).bind fun v u hv => .pure ?_
    have hdisplay := hv.display
    cases v <;> cases u <;> simp only [Value.Same, Value.bare, reduceCtorEq] at hv
    case null => rfl
    all_goals exact hdisplay

theorem findCallee {callee : Callee} (hc : ∀ c ∈ callee.codes, c.Portable)
    (hname : ∀ variant allowEmpty, callee ≠ .delegate "" variant allowEmpty) :
    Render.Twin l m (Option.Rel (TemplateRef.Twin l m)) (a.findCallee e callee)
      (b.findCallee f callee) := by
  cases callee with
  | template i name => exact (hab.resolve hef .call i name).map fun _ _ h => .some h
  | delegate name variant allowEmpty =>
    have hvariant : ∀ c, variant = some c → c.Portable := by
      rintro c rfl
      exact hc c List.mem_cons_self
    refine (hab.variantText hef hvariant).bind fun v v' hv => ?_
    subst hv
    have hnote : Render.Twin l m (fun _ _ => True)
        (Render.note (.select a.unit a.template.name name v))
        (Render.note (.select b.unit b.template.name name v)) := .note rfl
    refine hnote.bind fun _ _ _ => ?_
    have hfound := hef.delegate name v fun h => hname variant allowEmpty (h ▸ rfl)
    generalize e.lookup.delegate? name v = x, f.lookup.delegate? name v = y at hfound
    cases hfound with
    | some h => exact .pure (.some h)
    | none =>
      cases allowEmpty with
      | true => exact .pure .none
      | false => exact .fail _

theorem planCall (p point : Nat) (out : Output) {callee : Callee} {base : ParamsBase}
    {args : List (String × ArgSource)} (hop : (Op.call point out callee base args).Portable) :
    Render.Twin l m (Action.Twin l m) (a.planCall e p point out callee base args)
      (b.planCall f p point out callee base args) := by
  have hcodes := hop.codes
  simp only [Op.codes, List.mem_append] at hcodes
  have hname : ∀ variant allowEmpty, callee ≠ .delegate "" variant allowEmpty := by
    rintro variant allowEmpty rfl
    exact hop.delegate rfl
  have hwait := hab.waitingAt point
  unfold Activation.planCall
  generalize a.waitingAt? point = x, b.waitingAt? point = y at hwait
  cases hwait with
  | some h => exact .pure (.call h.1.callee (.some ⟨h.1.saved, h.2⟩) h.1.params hab.reached)
  | none =>
    refine (hab.baseRecord hef fun c hc => hcodes c (.inl (.inl hc))).bind fun r r' hr => ?_
    refine (hab.layArgs hef (fun c hc => hcodes c (.inl (.inr hc))) hr).bind fun r r' hr => ?_
    refine (hab.findCallee hef (fun c hc => hcodes c (.inr hc)) hname).bind fun t u htu => ?_
    cases htu with
    | none => exact .pure (.goto hab)
    | some htu => exact .pure (.call htu .none hr hab)

theorem plan (p : Nat) {op : Op} (hop : op.Portable) :
    Render.Twin l m (Action.Twin l m) (a.plan e p op) (b.plan f p op) := by
  have hcodes := hop.codes
  cases op with
  | text point out s => exact .lift (hab.emit out s _)
  | print point out c =>
    refine (Code.eval_twin hef hab (hcodes c List.mem_cons_self)).bind fun v u hv => .lift ?_
    rw [hv.display]
    exact hab.emit out _ _
  | store point slot c forces =>
    have hc := hcodes c List.mem_cons_self
    have hset : ∀ v u, Value.Same v u → Render.Twin l m (Action.Twin l m)
        (do return .goto (p + 1) (← a.set slot (.value v)))
        (do return .goto (p + 1) (← b.set slot (.value u))) := fun v u hv =>
      (Render.Twin.lift (hab.set slot (.value hv))).bind fun c d hcd => .pure (.goto hcd)
    cases forces with
    | true => exact (Code.eval_twin hef hab hc).bind hset
    | false => exact (Code.read_twin hef hab hc).bind hset
  | branchUnless point c target =>
    refine (Code.eval_twin hef hab (hcodes c List.mem_cons_self)).bind fun v u hv => ?_
    rw [hv.isTruthy]
    exact .pure (.goto hab)
  | branchUnlessMatch point subject cases target =>
    refine (Render.Twin.lift (hab.value subject)).bind fun v u hv => ?_
    refine (hab.matchesAny hef hcodes hv).bind fun x y hxy => ?_
    subst hxy
    exact .pure (.goto hab)
  | jump target => exact .pure (.goto hab)
  | forInit point c list cursor onEmpty =>
    exact (Code.eval_twin hef hab (hcodes c List.mem_cons_self)).bind fun v u hv =>
      .lift (hab.beginLoop p list cursor onEmpty hv)
  | forNext list cursor item index exit => exact .lift (hab.nextItem p list cursor item index exit)
  | beginCapture buffer =>
    exact (Render.Twin.lift (hab.set buffer .buffer)).bind fun c d hcd => .pure (.goto hcd)
  | endCapture buffer dest kind => exact .lift (hab.endCapture p buffer dest kind)
  | call point out callee base args => exact hab.planCall hef p point out hop

end Activation.Twin

end Evaluation

namespace Render.Twin

variable {R : α → β → Prop} {x : Render α} {y : Render β}

theorem poll : Render.Twin l m Eq poll poll := by
  refine get.bind fun s t hst => ?_
  rw [hst.capture]
  cases t.capture with
  | some x => exact pure rfl
  | none =>
    refine .bind (R := Eq) (.modifyGet fun s t hst => ?_) fun r q hrq => ?_
    · rw [hst.sink]
      exact ⟨rfl, { hst with sink := rfl }⟩
    · subst hrq
      exact (note rfl).bind fun _ _ _ => pure rfl

theorem append (chunk : String) : Render.Twin l m Eq (append chunk) (append chunk) := by
  refine get.bind fun s t hst => ?_
  rw [hst.capture]
  cases t.capture with
  | some x =>
    refine .bind (R := fun _ _ => True) (.modify fun s t hst => ?_) fun _ _ _ => pure rfl
    exact { hst with capture := rfl }
  | none =>
    refine .bind (R := Eq) (.modifyGet fun s t hst => ?_) fun r q hrq => ?_
    · rw [hst.sink]
      exact ⟨rfl, { hst with sink := rfl }⟩
    · subst hrq
      refine (note rfl).bind fun _ _ _ => ?_
      cases r with
      | error e => exact fail _
      | ok r => exact pure rfl

theorem holdSink : Render.Twin l m (fun _ _ => True) holdSink holdSink :=
  modify fun _ _ hst => { hst with holdsSink := rfl }

theorem takeHold : Render.Twin l m Eq takeHold takeHold :=
  modifyGet fun _ _ hst => ⟨hst.holdsSink, { hst with holdsSink := rfl }⟩

theorem deeper {e f : Env} (h : e.maxDepth = f.maxDepth) (callee : String)
    (hxy : Render.Twin l m R x y) : Render.Twin l m R (deeper e callee x) (deeper f callee y) := by
  refine get.bind fun s t hst => ?_
  rw [hst.depth, h]
  split
  · exact fail _
  · intro s t hst
    obtain ⟨hr, hst'⟩ := hxy { s with depth := s.depth + 1 } { t with depth := t.depth + 1 }
      { hst with depth := congrArg (· + 1) hst.depth }
    exact ⟨hr, { hst' with depth := congrArg (· - 1) hst'.depth }⟩

theorem capturing (text : String) (hxy : Render.Twin l m R x y) :
    Render.Twin l m (fun p q => R p.1 q.1 ∧ p.2 = q.2) (capturing text x) (capturing text y) := by
  intro s t hst
  obtain ⟨hr, hst'⟩ := hxy { s with capture := some text } { t with capture := some text }
    { hst with capture := rfl }
  simp only [Render.capturing]
  generalize x { s with capture := some text } = p, y { t with capture := some text } = q at hr hst'
  obtain ⟨a, u⟩ := p
  obtain ⟨b, v⟩ := q
  refine ⟨?_, { hst' with capture := hst.capture }⟩
  cases a <;> cases b
  · exact hr
  · exact hr.elim
  · exact hr.elim
  · exact ⟨hr, congrArg (·.getD "") hst'.capture⟩

theorem tryCatch {g : Stop → Render α} {g' : Stop → Render β} (hxy : Render.Twin l m R x y)
    (hg : ∀ e, Render.Twin l m R (g e) (g' e)) :
    Render.Twin l m R (tryCatch x g) (tryCatch y g') := by
  intro s t hst
  obtain ⟨hr, hst'⟩ := hxy s t hst
  rw [tryCatch_apply, tryCatch_apply]
  rcases hx : x s with ⟨e | a, u⟩ <;> rcases hy : y t with ⟨e' | b, v⟩ <;> rw [hx, hy] at hr hst'
  · obtain ⟨rfl, -⟩ := hr
    exact hg e u v hst'
  · exact hr.elim
  · exact hr.elim
  · exact ⟨hr, hst'⟩

end Render.Twin

namespace Activation

theorem awaitSink_twin : Render.Twin l m (fun _ _ => True) awaitSink awaitSink := by
  refine Render.Twin.takeHold.bind fun x y hxy => ?_
  subst hxy
  cases x with
  | true => exact .stop _
  | false =>
    refine Render.Twin.poll.bind fun r q hrq => ?_
    subst hrq
    cases r with
    | ready => exact .pure trivial
    | notReady => exact .stop _

theorem writeSink_twin (text : String) :
    Render.Twin l m (fun _ _ => True) (writeSink text) (writeSink text) := by
  refine (Render.Twin.append text).bind fun r q hrq => ?_
  subst hrq
  cases r with
  | ready => exact .pure trivial
  | notReady => exact .holdSink

end Activation

section Running

variable {e f : Env} {run run' : Runner} {a b : Activation} (hef : Env.Twin l m e f)
  (hrun : Runner.Twin l m run run') (hab : Activation.Twin l m a b)

theorem TemplateRef.Twin.nameOf {t u : TemplateRef} (h : TemplateRef.Twin l m t u) :
    l.nameOf t = m.nameOf u := by
  cases h
  rfl

include hef hrun

theorem Activation.perform_twin {x y : Action} (hxy : Action.Twin l m x y) :
    Render.Twin l m (Progress.Twin l m) (perform e run x) (perform f run' y) := by
  cases hxy with
  | goto hab => exact .pure (.goto hab)
  | write hab =>
    exact awaitSink_twin.bind fun _ _ _ => (writeSink_twin _).bind fun _ _ _ => .pure (.goto hab)
  | @call t u g h r q a b out p htu hgh hrq hab =>
    have henter : Render.Twin l m
        (fun x y => FrameOutcome.Twin l m x.1 y.1 ∧ Activation.Twin l m x.2 y.2)
        (a.enter e run out t g r) (b.enter f run' out u h q) := by
      unfold Activation.enter
      rw [hef.library, hef.library', htu.nameOf]
      refine .deeper hef.maxDepth _ ?_
      cases out with
      | sink =>
        exact (hrun t u g h r q _ _ htu hgh hrq).bind fun o o' ho => .pure ⟨ho, hab⟩
      | buffer slot =>
        refine (Render.Twin.lift (hab.buffer slot)).bind fun text text' ht => ?_
        subst ht
        refine (Render.Twin.capturing text (hrun t u g h r q _ _ htu hgh hrq)).bind fun x y hxy => ?_
        obtain ⟨o, written⟩ := x
        obtain ⟨o', written'⟩ := y
        obtain ⟨ho, rfl⟩ := hxy
        exact (Render.Twin.lift (hab.set slot .buffer)).bind fun c d hcd => .pure ⟨ho, hcd⟩
    refine henter.bind fun x y hxy => ?_
    obtain ⟨o, c⟩ := x
    obtain ⟨o', d⟩ := y
    obtain ⟨ho, hcd⟩ := hxy
    cases ho with
    | done => exact .pure (.goto hcd)
    | paused hfg => exact .pure (.paused hcd (.cons ⟨htu, hrq, hfg.outer⟩ hfg.calls))

include hab

theorem Activation.Twin.attempt (p : Nat) {op : Op} (hop : op.Portable) :
    Render.Twin l m (Progress.Twin l m) (a.attempt e run p op) (b.attempt f run' p op) := by
  have hstep : Render.Twin l m (Progress.Twin l m) (a.step e run p op) (b.step f run' p op) :=
    (hab.plan hef p hop).bind fun x y hxy => Activation.perform_twin hef hrun hxy
  refine hstep.tryCatch fun s => ?_
  cases s with
  | pause why => exact .pure (.paused hab .nil)
  | failure e => exact .fail e

omit hef hrun in
theorem Activation.Twin.save (point : Nat) (why : PauseReason) {cs ds : List PendingCall}
    (hcs : List.Forall₂ (PendingCall.Twin l m) cs ds) :
    Paired (fun _ => True) (FrameOutcome.Twin l m) (a.save point why cs) (b.save point why ds) := by
  unfold Activation.save
  rw [hab.template]
  cases b.template.procedure.points[point]? with
  | none => exact hab.contradiction _
  | some entry =>
    refine FrameOutcome.Twin.paused ⟨⟨rfl, rfl, ?_⟩, hcs⟩
    rw [List.map_map, List.map_map]
    refine List.map_congr_left fun slot _ => ?_
    have hslot := hab.slot slot
    simp only [Function.comp_apply, Array.getD_eq_getD_getElem?]
    generalize a.locals[slot]? = x, b.locals[slot]? = y at hslot
    cases hslot with
    | none => rfl
    | some h => exact Local.same_iff.1 h

variable (hl : l.Portable)

include hl

theorem Activation.Twin.execute (fuel p : Nat) :
    Render.Twin l m (Standing.Twin l m) (a.execute e run fuel p) (b.execute f run' fuel p) := by
  induction fuel generalizing a b p with
  | zero => exact .pure (.running hab)
  | succ fuel ih =>
    unfold Activation.execute
    rw [hab.template]
    cases ho : b.template.procedure.ops[p]? with
    | none => exact .pure (.ended .done)
    | some op =>
      rw [← hab.template] at ho
      refine (hab.attempt hef hrun p (hl _ _ _ hab.here op (Array.mem_of_getElem? ho))).bind
        fun x y hxy => ?_
      cases hxy with
      | goto hcd => exact ih hcd _
      | paused hcd hcs =>
        exact (Render.Twin.lift (hcd.save _ _ hcs)).bind fun o o' ho => .pure (.ended ho)

omit hrun hl in
theorem Activation.Twin.stepBound : a.stepBound e = b.stepBound f := by
  have hlocals : a.locals.foldl (fun n l => max n l.longest) 0 =
      b.locals.foldl (fun n l => max n l.longest) 0 := by
    have hbare : ∀ c : Activation, c.locals.foldl (fun n l => max n l.longest) 0 =
        (c.locals.map Local.bare).foldl (fun n l => max n l.longest) 0 := by
      intro c
      rw [Array.foldl_map]
      congr 1
      funext n l
      cases l <;> simp only [Local.bare, Local.longest, Value.longest_bare]
    rw [hbare, hbare, hab.locals]
  have hinjected : Value.longestField e.injected = Value.longestField f.injected := by
    rw [← Value.longestField_bare, hef.injected, Value.longestField_bare]
  simp only [Activation.stepBound, Activation.longestList, hab.template, hlocals, hinjected]

theorem Activation.Twin.finish (p : Nat) :
    Render.Twin l m (FrameOutcome.Twin l m) (a.finish e run p) (b.finish f run' p) := by
  refine (hab.execute hef hrun hl patience p).bind fun x y hxy => ?_
  cases hxy with
  | ended ho => exact .pure ho
  | running hcd =>
    dsimp only
    rw [hcd.stepBound hef]
    refine (hcd.execute hef hrun hl _ _).bind fun x y hxy => ?_
    cases hxy with
    | ended ho => exact .pure ho
    | running hcd => exact .lift (hcd.contradiction _)

end Running

theorem Local.zip_same (slots : List Nat) {xs ys : List Local}
    (h : xs.map Local.bare = ys.map Local.bare) :
    List.Forall₂ (fun x y => x.1 = y.1 ∧ x.2.Same y.2) (slots.zip xs) (slots.zip ys) := by
  induction slots generalizing xs ys with
  | nil => exact .nil
  | cons n slots ih =>
    cases xs <;> cases ys
    · exact .nil
    · cases h
    · cases h
    · simp only [List.map_cons, List.cons.injEq] at h
      exact .cons ⟨rfl, Local.same_iff.2 h.1⟩ (ih h.2)

theorem ParamBinding.valueIn_same (b : ParamBinding) {i i' r r' : Record} (hi : Record.Same i i')
    (hr : Record.Same r r') : (b.valueIn i r).Same (b.valueIn i' r') := by
  have hgiven : (b.given i r).Same (b.given i' r') := by
    unfold ParamBinding.given
    split
    · exact hi.read _
    · exact hr.read _
  rw [b.valueIn_eq, b.valueIn_eq, Value.Same.isNull hgiven]
  split
  · exact .refl _
  · exact hgiven

namespace Activation.Twin

variable {a b : Activation} (hab : Activation.Twin l m a b)

include hab

theorem fillParams {i i' : Record} (hi : Record.Same i i') (bs : List ParamBinding) :
    Paired (fun _ => True) (Activation.Twin l m) (Activation.fillParams i a bs)
      (Activation.fillParams i' b bs) := by
  induction bs generalizing a b with
  | nil => exact hab
  | cons p bs ih =>
    exact (hab.set p.slot (.value (p.valueIn_same hi hab.params))).bind fun c d hcd => ih hcd

theorem fillState (bs : List StateBinding) :
    Paired (fun _ => True) (Activation.Twin l m) (Activation.fillState a bs)
      (Activation.fillState b bs) := by
  induction bs generalizing a b with
  | nil => exact hab
  | cons p bs ih => exact (hab.set p.slot (.value (.refl _))).bind fun c d hcd => ih hcd

theorem putBack {xs ys : List (Nat × Local)}
    (h : List.Forall₂ (fun x y => x.1 = y.1 ∧ x.2.Same y.2) xs ys) :
    Paired (fun _ => True) (Activation.Twin l m) (a.putBack xs) (b.putBack ys) := by
  induction h generalizing a b with
  | nil => exact hab
  | @cons x y xs ys hxy _ ih =>
    obtain ⟨n, p⟩ := x
    obtain ⟨k, q⟩ := y
    obtain ⟨rfl, hpq⟩ := hxy
    exact (hab.set n hpq).bind fun c d hcd => ih hcd

theorem restore {f g : Frames} (h : Frames.Twin l m f g) :
    Paired (fun _ => True) (fun x y => x.1 = y.1 ∧ Activation.Twin l m x.2 y.2) (a.restore f)
      (b.restore g) := by
  have hlength : f.outer.locals.length = g.outer.locals.length := by
    simpa only [List.length_map] using congrArg List.length h.outer.locals
  have hput : ∀ entry : ResumeEntry, Paired (fun _ => True)
      (fun x y => x.1 = y.1 ∧ Activation.Twin l m x.2 y.2)
      (do
        let a ← a.putBack (entry.live.zip f.outer.locals)
        let waiting := if f.calls.isEmpty then none else some (g.outer.point, f.calls)
        return (entry.position, { a with waiting := waiting }))
      (do
        let b ← b.putBack (entry.live.zip g.outer.locals)
        let waiting := if g.calls.isEmpty then none else some (g.outer.point, g.calls)
        return (entry.position, { b with waiting := waiting })) := by
    intro entry
    refine (hab.putBack (Local.zip_same entry.live h.outer.locals)).bind fun c d hcd => ⟨rfl, ?_⟩
    refine { hcd with waiting := ?_ }
    have hcalls := h.calls
    generalize f.calls = cs, g.calls = ds at hcalls
    cases hcalls with
    | nil => exact .none
    | cons hc hcs => exact .some ⟨rfl, .cons hc hcs⟩
  have herror : ∀ {i : Inconsistency} {x y : PUnit → Except RenderError (Nat × Activation)},
      Paired (fun _ => True) (fun x y => x.1 = y.1 ∧ Activation.Twin l m x.2 y.2)
        (a.contradiction i >>= x) (b.contradiction i >>= y) :=
    (hab.contradiction (R := fun _ _ => False) _).bind fun _ _ hn => hn.elim
  unfold Activation.restore
  rw [h.outer.template, h.outer.point, hab.template, hlength]
  by_cases hname : g.outer.template = b.template.name
  · simp only [hname, ne_eq, not_true_eq_false, if_false]
    cases b.template.procedure.points[g.outer.point]? with
    | none => exact hab.contradiction _
    | some entry =>
      by_cases hlive : entry.live.length = g.outer.locals.length
      · simp only [hlive, not_true_eq_false, if_false]
        exact hput entry
      · simp only [hlive, not_false_eq_true, if_true]
        exact herror
  · simp only [hname, ne_eq, not_false_eq_true, if_true]
    exact herror

end Activation.Twin

section Cells

variable {cs ds : List (Option Frames)} (h : List.Forall₂ (Option.Rel (Frames.Twin l m)) cs ds)

include h

theorem Frames.Twin.saved (i : Nat) : Option.Rel (Frames.Twin l m) cs[i]?.join ds[i]?.join := by
  induction h generalizing i with
  | nil => exact .none
  | cons hc _ ih =>
    cases i with
    | zero => exact hc
    | succ i => exact ih i

theorem Frames.Twin.taken (i : Nat) :
    List.Forall₂ (Option.Rel (Frames.Twin l m)) (cs.set i none) (ds.set i none) := by
  induction h generalizing i with
  | nil => exact .nil
  | cons hc hcs ih =>
    cases i with
    | zero => exact .cons .none hcs
    | succ i => exact .cons hc (ih i)

end Cells

theorem Render.takeSaved_twin (cell : Nat) :
    Render.Twin l m (Frames.Twin l m) (takeSaved cell) (takeSaved cell) := by
  refine Render.Twin.get.bind fun s t hst => ?_
  have hsaved := Frames.Twin.saved hst.cells cell
  rw [Array.getElem?_toList, Array.getElem?_toList] at hsaved
  generalize s.cells[cell]?.join = x, t.cells[cell]?.join = y at hsaved
  cases hsaved with
  | none => exact .fail _
  | some hfg =>
    have htake : Render.Twin l m (fun _ _ => True)
        (modify fun s => { s with cells := s.cells.setIfInBounds cell none })
        (modify fun s => { s with cells := s.cells.setIfInBounds cell none }) := by
      refine .modify fun s t hst => { hst with cells := ?_ }
      simp only [Array.toList_setIfInBounds]
      exact Frames.Twin.taken hst.cells cell
    exact htake.bind fun _ _ _ => .pure hfg

section Rendering

variable {e f : Env} (hef : Env.Twin l m e f) (hl : l.Portable)

include hef hl

theorem runTemplate_twin {run run' : Runner} (hrun : Runner.Twin l m run run') :
    Runner.Twin l m (runTemplate e run) (runTemplate f run') := by
  intro t u fs gs r q held held' htu hfg hrq
  cases htu with
  | @mk i name c j hc hd =>
    have hname := Library.name_of_compiled? hc
    simp only [runTemplate, hef.library, hef.library', hc, hd]
    have hempty : Activation.Twin l m
        ⟨i, c, r, Array.replicate c.procedure.layout.size .unset, none, held⟩
        ⟨j, c, q, Array.replicate c.procedure.layout.size .unset, none, held'⟩ :=
      ⟨rfl, hname ▸ hc, hname ▸ hd, hrq, rfl, .none⟩
    refine (Render.Twin.lift ((hempty.fillParams hef.injected _).bind
      fun c d hcd => hcd.fillState _)).bind fun a b hab => ?_
    cases hfg with
    | none => exact hab.finish hef hrun hl 0
    | some hfg =>
      refine (Render.Twin.lift (hab.restore hfg)).bind fun x y hxy => ?_
      obtain ⟨p, a⟩ := x
      obtain ⟨p', b⟩ := y
      obtain ⟨rfl, hab⟩ := hxy
      exact hab.finish hef hrun hl p

theorem runWithin_twin (levels : Nat) :
    Runner.Twin l m (runWithin e levels) (runWithin f levels) := by
  induction levels with
  | zero =>
    refine runTemplate_twin hef hl fun t u _ _ _ _ _ _ htu _ _ => ?_
    rw [hef.library, hef.library', hef.maxDepth, htu.nameOf]
    exact .fail _
  | succ levels ih => exact runTemplate_twin hef hl ih

theorem Render.outermost_twin {t u : TemplateRef} (htu : TemplateRef.Twin l m t u)
    {fs gs : Option Frames} (hfg : Option.Rel (Frames.Twin l m) fs gs) {r q : Record}
    (hrq : Record.Same r q) :
    Render.Twin l m Eq (outermost e t fs r) (outermost f u gs q) := by
  refine Render.Twin.get.bind fun s s' hs => ?_
  rw [hef.maxDepth, hs.depth]
  refine (runWithin_twin hef hl _ t u fs gs r q _ _ htu hfg hrq).bind fun o o' ho => ?_
  cases ho with
  | done => exact .pure rfl
  | paused hfg =>
    refine .modifyGet fun s s' hs => ⟨?_, { hs with cells := ?_ }⟩
    · have hcells : s.cells.size = s'.cells.size := by
        simpa only [Array.length_toList] using hs.cells.length_eq
      simp only [hfg.outer.template, Frames.depth, hfg.calls.length_eq, hcells]
    · rw [Array.toList_push, Array.toList_push]
      exact List.rel_append hs.cells (.cons (.some hfg) .nil)

theorem Render.resume_twin {t u : TemplateRef} (htu : TemplateRef.Twin l m t u) {r q : Record}
    (hrq : Record.Same r q) (o : Outcome) :
    Render.Twin l m Eq (resume e t r o) (resume f u q o) := by
  cases o with
  | done => exact .fail _
  | suspended st =>
    have htake : Render.Twin l m Eq
        (do outermost e t (some (← takeSaved st.cell)) r)
        (do outermost f u (some (← takeSaved st.cell)) q) :=
      (takeSaved_twin st.cell).bind fun fs gs hfg => outermost_twin hef hl htu (.some hfg) hrq
    simp only [resume, hef.library, hef.library', htu.nameOf]
    by_cases hname : st.template = m.nameOf u
    · simp only [hname, ne_eq, not_true_eq_false, if_false]
      exact htake
    · simp only [hname, ne_eq, not_false_eq_true, if_true]
      exact (Render.Twin.fail (R := fun _ _ => False) _).bind fun _ _ hn => hn.elim

theorem Render.start_twin {t u : TemplateRef} (htu : TemplateRef.Twin l m t u) {r q : Record}
    (hrq : Record.Same r q) : Render.Twin l m Eq (start e t r) (start f u q) :=
  Render.Twin.takeHold.bind fun _ _ _ => outermost_twin hef hl htu .none hrq

end Rendering

end ResumableTemplates
