import ResumableTemplates.Proofs.Render.Accord
import ResumableTemplates.Proofs.Render.Moves
import ResumableTemplates.Render.Resume

/-! Renders in accord go on in unison: op by op they evaluate, write and save the same, unless one of
them is cut off. -/
namespace ResumableTemplates

namespace Accord

variable (A : Accord)

inductive Actions (i : Nat) (t : CompiledTemplate) : Action → Action → Prop
  | goto : A.Activations i t a b → Actions i t (.goto q a) (.goto q b)
  | write : A.Activations i t a b → Actions i t (.write text q a) (.write text q b)
  | call : A.reach r → (∀ f, frames = some f → A.Reaches f.calls) →
      (∀ n ∈ out.slots, ¬ A.Hides t n) → A.Activations i t a b →
        Actions i t (.call out r frames params q a) (.call out r frames params q b)

inductive Progresses (i : Nat) (t : CompiledTemplate) : Progress → Progress → Prop
  | goto : A.Activations i t a b → Progresses i t (.goto q a) (.goto q b)
  | paused : A.Activations i t a b → A.Reaches calls →
      Progresses i t (.paused why a calls) (.paused why b calls)

inductive Outcomes : FrameOutcome → FrameOutcome → Prop
  | done : Outcomes .done .done
  | paused : A.Reaches f.calls → Outcomes (.paused f why) (.paused f why)

inductive Standings (i : Nat) (t : CompiledTemplate) : Standing → Standing → Prop
  | ended : A.Outcomes o o' → Standings i t (.ended o) (.ended o')
  | running : A.Activations i t a b → Standings i t (.running q a) (.running q b)

def Runners (run run' : Runner) : Prop :=
  ∀ r frames params held held', A.reach r → (∀ f, frames = some f → A.Reaches f.calls) →
    A.Renders A.Outcomes (run r frames params held) (run' r frames params held')

variable {A} {i : Nat} {t : CompiledTemplate} {a b : Activation}

namespace Activations

variable (hab : A.Activations i t a b)

include hab

theorem setSame (n : Nat) (x : Local) :
    Paired (fun _ => True) (A.Activations i t) (a.set n x) (b.set n x) := hab.set fun _ => rfl

theorem emit {out : Output} (hout : ∀ n ∈ out.slots, ¬ A.Hides t n) (text : String) (q : Nat) :
    Paired (fun _ => True) (A.Actions i t) (a.emit out text q) (b.emit out text q) := by
  cases out with
  | sink => exact Actions.write hab
  | buffer slot =>
    refine (hab.buffer (hout slot List.mem_cons_self)).bind fun x y hxy => ?_
    subst hxy
    exact (hab.setSame slot _).bind fun c d hcd => Actions.goto hcd

theorem beginLoop (p list cursor : Nat) (onEmpty : Option Nat) (v : Value) :
    Paired (fun _ => True) (A.Actions i t) (a.beginLoop p list cursor onEmpty v)
      (b.beginLoop p list cursor onEmpty v) := by
  cases v with
  | list vs =>
    refine (hab.setSame list _).bind fun c d hcd => (hcd.setSame cursor _).bind fun c d hcd => ?_
    cases onEmpty with
    | none => exact Actions.goto hcd
    | some target => cases vs <;> exact Actions.goto hcd
  | _ => exact ⟨rfl, trivial⟩

theorem nextItem {list cursor : Nat} (hlist : ¬ A.Hides t list) (hcursor : ¬ A.Hides t cursor)
    (p item : Nat) (index : Option Nat) (exit : Nat) :
    Paired (fun _ => True) (A.Actions i t) (a.nextItem p list cursor item index exit)
      (b.nextItem p list cursor item index exit) := by
  refine (hab.cursor hcursor).bind fun n n' hn => ?_
  subst hn
  refine (hab.value hlist).bind fun v u hv => ?_
  subst hv
  cases v with
  | list vs =>
    dsimp only
    cases vs[n]? with
    | none => exact Actions.goto hab
    | some v =>
      refine (hab.setSame item _).bind fun c d hcd => ?_
      cases index with
      | none => exact (hcd.setSame cursor _).bind fun c d hcd => Actions.goto hcd
      | some slot =>
        exact (hcd.setSame slot _).bind fun c d hcd =>
          (hcd.setSame cursor _).bind fun c d hcd => Actions.goto hcd
  | _ => exact hab.contradiction _

theorem endCapture {buffer : Nat} (hbuffer : ¬ A.Hides t buffer) (p dest : Nat)
    (kind : ContentKind) :
    Paired (fun _ => True) (A.Actions i t) (a.endCapture p buffer dest kind)
      (b.endCapture p buffer dest kind) := by
  unfold Activation.endCapture
  rw [hab.slots buffer hbuffer]
  split
  · exact hab.contradiction _
  · exact (hab.setSame buffer _).bind fun c d hcd =>
      (hcd.setSame dest _).bind fun c d hcd => Actions.goto hcd
  · exact hab.contradiction _

theorem waitingAt (point : Nat) : b.waitingAt? point = a.waitingAt? point := by
  rw [Activation.waitingAt?, Activation.waitingAt?, hab.waiting]

theorem reaches_of_waitingAt {point : Nat} {c : PendingCall} {cs : List PendingCall}
    (h : a.waitingAt? point = some (c, cs)) : A.reach c.callee ∧ A.Reaches cs :=
  List.forall_mem_cons.1 (hab.calls _ (Activation.waiting_of_waitingAt? h))

theorem reachedNone : A.Activations i t { a with waiting := none } { b with waiting := none } :=
  { hab with waiting := rfl, calls := fun _ h => by cases h }

theorem eval {c : Code} (hc : ∀ d ∈ c.parts, A.IsClear t d) :
    A.Renders Eq (c.eval A.env a) (c.eval A.other b) := .forced (read hab hc)

theorem matchesAny {cs : List Code} (hcs : ∀ c ∈ cs, ∀ d ∈ c.parts, A.IsClear t d) (v : Value) :
    A.Renders Eq (a.matchesAny A.env v cs) (b.matchesAny A.other v cs) := by
  induction cs with
  | nil => exact .pure rfl
  | cons c cs ih =>
    refine (hab.eval (hcs c List.mem_cons_self)).bindEq fun x => ?_
    split
    · exact .pure rfl
    · exact ih fun d hd => hcs d (List.mem_cons_of_mem _ hd)

theorem baseRecord {base : ParamsBase} (hcs : ∀ c ∈ base.codes, ∀ d ∈ c.parts, A.IsClear t d) :
    A.Renders Eq (a.baseRecord A.env base) (b.baseRecord A.other base) := by
  cases base with
  | none => exact .pure rfl
  | all => exact .pure hab.params.symm
  | code c =>
    exact (hab.eval (hcs c List.mem_cons_self)).bindEq fun v => .lift (.refl fun _ _ => trivial)

theorem layArgs {args : List (String × ArgSource)}
    (hcs : ∀ c ∈ args.flatMap (·.2.codes), ∀ d ∈ c.parts, A.IsClear t d)
    (hslots : ∀ n ∈ args.flatMap (·.2.slots), ¬ A.Hides t n) (r : Record) :
    A.Renders Eq (a.layArgs A.env r args) (b.layArgs A.other r args) := by
  induction args generalizing r with
  | nil => exact .pure rfl
  | cons arg args ih =>
    have ih := ih (fun c hmem => hcs c (List.mem_append_right _ hmem))
      fun n hmem => hslots n (List.mem_append_right _ hmem)
    obtain ⟨name, c | n⟩ := arg
    · exact (read hab (hcs c List.mem_cons_self)).bindEq fun v => ih _
    · exact (Renders.lift (hab.value (hslots n List.mem_cons_self))).bindEq fun v => ih _

theorem variantText {variant : Option Code}
    (hcs : ∀ c, variant = some c → ∀ d ∈ c.parts, A.IsClear t d) :
    A.Renders Eq (a.variantText A.env variant) (b.variantText A.other variant) := by
  cases variant with
  | none => exact .pure rfl
  | some c => exact (hab.eval (hcs c rfl)).bindEq fun v => .pure rfl

section Ops

variable {op : Op} (hop : op ∈ t.procedure.ops)

include hop

theorem clear : op.Clear (A.Hides t) A.env.injected A.other.injected :=
  A.clear i t.name t hab.reached hab.here op hop

theorem findCallee {callee : Callee} (he : op.callee? = some callee)
    (hcs : ∀ c ∈ callee.codes, ∀ d ∈ c.parts, A.IsClear t d) :
    A.Renders (fun r q => r = q ∧ ∀ u, r = some u → A.reach u) (a.findCallee A.env callee)
      (b.findCallee A.other callee) := by
  cases callee with
  | template site name =>
    refine (hab.resolve .call site name).map fun r q hrq => ⟨congrArg some hrq.1, ?_⟩
    rintro _ ⟨⟩
    exact A.callee i t.name t hab.reached hab.here op hop site name r he hrq.2
  | delegate name variant allowEmpty =>
    have hvariant : ∀ c, variant = some c → ∀ d ∈ c.parts, A.IsClear t d := by
      rintro c rfl
      exact hcs c List.mem_cons_self
    refine (hab.variantText hvariant).bindEq fun v => ?_
    rw [hab.unit, hab.unit', hab.template, hab.template', A.lookup]
    refine (Renders.note _).bind fun _ _ _ => ?_
    cases hfound : A.env.lookup.delegate? name v with
    | some r =>
      refine .pure ⟨rfl, ?_⟩
      rintro _ ⟨⟩
      exact A.delegate i t.name t hab.reached hab.here op hop name variant allowEmpty v r he hfound
    | none =>
      cases allowEmpty with
      | true => exact .pure ⟨rfl, fun _ h => by cases h⟩
      | false => exact .fail _

theorem planCall {point : Nat} {out : Output} {callee : Callee} {base : ParamsBase}
    {args : List (String × ArgSource)} (he : op = .call point out callee base args) (p : Nat) :
    A.Renders (A.Actions i t) (a.planCall A.env p point out callee base args)
      (b.planCall A.other p point out callee base args) := by
  have hclear := hab.clear hop
  subst he
  have hcodes := hclear.codes
  have hslots := hclear.slots
  simp only [Op.codes, Op.slots, List.mem_append] at hcodes hslots
  have hout : ∀ n ∈ out.slots, ¬ A.Hides t n := fun n hn => hslots n (.inl hn)
  unfold Activation.planCall
  rw [hab.waitingAt]
  cases hw : a.waitingAt? point with
  | some w =>
    obtain ⟨hcallee, hcalls⟩ := hab.reaches_of_waitingAt hw
    refine .pure (.call hcallee ?_ hout hab.reachedNone)
    rintro _ ⟨⟩
    exact hcalls
  | none =>
    refine (hab.baseRecord fun c hc => hcodes c (.inl (.inl hc))).bindEq fun r => ?_
    refine (hab.layArgs (fun c hc => hcodes c (.inl (.inr hc))) (fun n hn => hslots n (.inr hn))
      r).bindEq fun r => ?_
    refine (hab.findCallee hop rfl fun c hc => hcodes c (.inr hc)).bind fun u u' hu => ?_
    obtain ⟨rfl, hreach⟩ := hu
    cases u with
    | none => exact .pure (.goto hab)
    | some u => exact .pure (.call (hreach u rfl) (fun _ h => by cases h) hout hab)

theorem plan (p : Nat) : A.Renders (A.Actions i t) (a.plan A.env p op) (b.plan A.other p op) := by
  have hclear := hab.clear hop
  have hcodes := hclear.codes
  have hslots := hclear.slots
  cases op with
  | text point out s => exact .lift (hab.emit hslots s _)
  | print point out c =>
    exact (hab.eval (hcodes c List.mem_cons_self)).bindEq fun v => .lift (hab.emit hslots _ _)
  | store point slot c forces =>
    have hset : ∀ v, A.Renders (A.Actions i t)
        (do return .goto (p + 1) (← a.set slot (.value v)))
        (do return .goto (p + 1) (← b.set slot (.value v))) := fun v =>
      (Renders.lift (hab.setSame slot _)).bind fun c d hcd => .pure (.goto hcd)
    cases forces with
    | true => exact (hab.eval (hcodes c List.mem_cons_self)).bindEq hset
    | false => exact (read hab (hcodes c List.mem_cons_self)).bindEq hset
  | branchUnless point c target =>
    exact (hab.eval (hcodes c List.mem_cons_self)).bindEq fun v => .pure (.goto hab)
  | branchUnlessMatch point subject cases target =>
    exact (Renders.lift (hab.value (hslots subject List.mem_cons_self))).bindEq fun v =>
      (hab.matchesAny hcodes v).bindEq fun x => .pure (.goto hab)
  | jump target => exact .pure (.goto hab)
  | forInit point c list cursor onEmpty =>
    exact (hab.eval (hcodes c List.mem_cons_self)).bindEq fun v =>
      .lift (hab.beginLoop p list cursor onEmpty v)
  | forNext list cursor item index exit =>
    exact .lift (hab.nextItem (hslots list List.mem_cons_self)
      (hslots cursor (List.mem_cons_of_mem _ List.mem_cons_self)) p item index exit)
  | beginCapture buffer =>
    exact (Renders.lift (hab.setSame buffer _)).bind fun c d hcd => .pure (.goto hcd)
  | endCapture buffer dest kind =>
    exact .lift (hab.endCapture (hslots buffer List.mem_cons_self) p dest kind)
  | call point out callee base args => exact hab.planCall hop rfl p

end Ops

end Activations

namespace Renders

variable {R : α → α → Prop} {x y : Render α}

theorem andLeft {P : α → Prop} (h : A.Renders R x y) (hx : ∀ s a u, x s = (.ok a, u) → P a) :
    A.Renders (fun a b => R a b ∧ P a) x y := by
  intro s t hst
  obtain ⟨hr, hst⟩ | ho := h s t hst
  · refine .inl ⟨?_, hst⟩
    rcases hxs : x s with ⟨_ | a, u⟩ <;> rcases hy : y t with ⟨_ | b, v⟩ <;> rw [hxs, hy] at hr
    · exact hr
    · exact hr.elim
    · exact hr.elim
    · exact ⟨hr, hx s a u hxs⟩
  · exact .inr ho

theorem poll : A.Renders Eq Render.poll Render.poll := by
  refine get.bind fun s t hst => ?_
  rw [hst.capture]
  cases s.capture with
  | some _ => exact pure rfl
  | none =>
    refine bindEq (.modifyGet fun s t hst => ?_) fun r => (note _).bind fun _ _ _ => pure rfl
    rw [hst.sink]
    exact ⟨rfl, { hst with sink := rfl }⟩

theorem append (chunk : String) : A.Renders Eq (Render.append chunk) (Render.append chunk) := by
  refine get.bind fun s t hst => ?_
  rw [hst.capture]
  cases s.capture with
  | some _ =>
    refine .bind (R := fun _ _ => True) (.modify fun s t hst => ?_) fun _ _ _ => pure rfl
    exact { hst with capture := rfl }
  | none =>
    refine bindEq (.modifyGet fun s t hst => ?_) fun r => (note _).bind fun _ _ _ => ?_
    · rw [hst.sink]
      exact ⟨rfl, { hst with sink := rfl }⟩
    · cases r with
      | error e => exact fail _
      | ok r => exact pure rfl

theorem takeHold : A.Renders Eq Render.takeHold Render.takeHold :=
  modifyGet fun _ _ hst => ⟨hst.holdsSink.symm, { hst with holdsSink := rfl }⟩

theorem deeper (callee : String) (hxy : A.Renders R x y) :
    A.Renders R (Render.deeper A.env callee x) (Render.deeper A.other callee y) := by
  refine get.bind fun s t hst => ?_
  rw [hst.depth, A.maxDepth]
  split
  · exact fail _
  · intro s t hst
    obtain ⟨hr, hst'⟩ | ho := hxy { s with depth := s.depth + 1 } { t with depth := t.depth + 1 }
      { hst with depth := congrArg (· + 1) hst.depth }
    · exact .inl ⟨hr, { hst' with depth := congrArg (· - 1) hst'.depth }⟩
    · exact .inr ho

theorem overruns_map {r : Except Stop α} (f : α → β) (h : Overruns r) : Overruns (r.map f) := by
  obtain ⟨template, rfl⟩ := h
  exact ⟨template, rfl⟩

theorem capturing (text : String) (hxy : A.Renders R x y) :
    A.Renders (fun p q => R p.1 q.1 ∧ p.2 = q.2) (Render.capturing text x)
      (Render.capturing text y) := by
  intro s t hst
  have h := hxy { s with capture := some text } { t with capture := some text }
    { hst with capture := rfl }
  simp only [Render.capturing]
  generalize x { s with capture := some text } = p, y { t with capture := some text } = q at h
  obtain ⟨a, u⟩ := p
  obtain ⟨b, v⟩ := q
  obtain ⟨hr, hst'⟩ | ⟨hne, ho⟩ := h
  · refine .inl ⟨?_, { hst' with capture := hst.capture }⟩
    cases a <;> cases b
    · exact hr
    · exact hr.elim
    · exact hr.elim
    · exact ⟨hr, (congrArg (·.getD "") hst'.capture).symm⟩
  · exact .inr ⟨hne, ho.imp (overruns_map _) (overruns_map _)⟩

theorem tryPause {g g' : PauseReason → Render α} (hxy : A.Renders R x y)
    (hg : ∀ why, A.Renders R (g why) (g' why)) :
    A.Renders R
      (tryCatch x fun | .pause why => g why | .failure e => Render.fail e)
      (tryCatch y fun | .pause why => g' why | .failure e => Render.fail e) := by
  intro s t hst
  rw [Render.tryCatch_apply, Render.tryCatch_apply]
  obtain ⟨hr, hst'⟩ | ⟨hne, ho⟩ := hxy s t hst
  · rcases hx : x s with ⟨e | a, u⟩ <;> rcases hy : y t with ⟨e' | b, v⟩ <;> rw [hx, hy] at hr hst'
    · obtain ⟨rfl, -⟩ := hr
      cases e with
      | pause why => exact hg why u v hst'
      | failure e => exact .inl ⟨⟨rfl, trivial⟩, hst'⟩
    · exact hr.elim
    · exact hr.elim
    · exact .inl ⟨hr, hst'⟩
  · refine .inr ⟨hne, ho.imp ?_ ?_⟩
    · rintro ⟨template, h⟩
      rcases hx : x s with ⟨e | a, u⟩ <;> rw [hx] at h <;> cases h
      exact ⟨template, rfl⟩
    · rintro ⟨template, h⟩
      rcases hy : y t with ⟨e | a, u⟩ <;> rw [hy] at h <;> cases h
      exact ⟨template, rfl⟩

theorem awaitSink : A.Renders Eq Activation.awaitSink Activation.awaitSink := by
  refine takeHold.bindEq fun held => ?_
  cases held with
  | true => exact stop _
  | false =>
    refine poll.bindEq fun r => ?_
    cases r with
    | ready => exact pure rfl
    | notReady => exact stop _

theorem writeSink (text : String) :
    A.Renders (fun _ _ => True) (Activation.writeSink text) (Activation.writeSink text) := by
  refine (append text).bindEq fun r => ?_
  cases r with
  | ready => exact pure trivial
  | notReady => exact modify fun _ _ hst => { hst with holdsSink := rfl }

end Renders

end Accord

namespace Activation

variable {env : Env} {run : Runner}

theorem point_of_paused {a b : Activation} {p : Nat} {op : Op} {s u : RenderState}
    {why : PauseReason} {calls : List PendingCall}
    (h : a.attempt env run p op s = (.ok (.paused why b calls), u)) : op.point? ≠ none := by
  intro hn
  have w : World := ⟨env.library, env.lookup, 0, [], fun _ _ _ _ => .error .doubleResume,
    fun _ _ _ _ _ => .error .doubleResume, fun _ _ _ _ => false⟩
  have hplan : a.plan env p op = liftM (a.action w p op) := plan_of_point?_eq_none hn
  rw [attempt_apply, step, Render.bind_apply] at h
  rcases hx : a.plan env p op s with ⟨e | act, v⟩ <;> rw [hx] at h
  · rw [hplan, Render.liftM_apply] at hx
    cases hact : a.action w p op <;> rw [hact] at hx <;> cases hx
    cases h
  · have hch := plan_changes hx
    cases act with
    | goto q c => cases h
    | write text q c => exact (hch.write _ _ _ rfl).2.1 hn
    | call out callee frames params q c =>
      obtain ⟨-, ⟨point, _, _, _, rfl⟩, -⟩ := hch.call _ _ _ _ _ _ rfl
      cases hn

def finishBy (env : Env) (run : Runner) (n p : Nat) (a : Activation) : Render FrameOutcome := do
  match ← a.execute env run n p with
  | .ended o => return o
  | .running _ a => a.contradiction .tooManySteps

theorem overruns_of_running {n p q : Nat} {a b : Activation} {s : RenderState}
    (h : (a.execute env run n p s).1 = .ok (.running q b)) :
    Accord.Overruns (finishBy env run n p a s).1 := by
  refine ⟨b.template.name, ?_⟩
  rw [finishBy, Render.bind_apply]
  rcases hx : a.execute env run n p s with ⟨e | standing, u⟩ <;> rw [hx] at h <;> cases h
  rfl

/-- A number of ops is too low, or no higher one makes a difference. -/
theorem running_or_finishBy_add (env : Env) (run : Runner) (n p : Nat) (a : Activation)
    (s : RenderState) : (∃ q b, (a.execute env run n p s).1 = .ok (.running q b)) ∨
      ∀ k, finishBy env run (n + k) p a s = finishBy env run n p a s := by
  by_cases h : ∃ q b, (a.execute env run n p s).1 = .ok (.running q b)
  · exact .inl h
  · refine .inr fun k => ?_
    have hk := execute_add k fun q b hr => h ⟨q, b, hr⟩
    simp only [finishBy, Render.bind_apply, hk]

end Activation

namespace Accord

variable {A : Accord} {i : Nat} {t : CompiledTemplate} {a b : Activation} {run run' : Runner}

theorem frames_reach {f : Frames} {r : TemplateRef} {params : Record} (hr : A.reach r)
    (hf : A.Reaches f.calls) : A.Reaches (⟨r, params, f.outer⟩ :: f.calls) :=
  List.forall_mem_cons.2 ⟨hr, hf⟩

section Running

variable (hrun : A.Runners run run')

include hrun

theorem perform {x y : Action} (hxy : A.Actions i t x y) :
    A.Renders (A.Progresses i t) (Activation.perform A.env run x)
      (Activation.perform A.other run' y) := by
  cases hxy with
  | goto hab => exact .pure (.goto hab)
  | write hab =>
    exact Renders.awaitSink.bind fun _ _ _ => (Renders.writeSink _).bind fun _ _ _ => .pure (.goto hab)
  | @call r frames a b out params q hr hf hout hab =>
    have henter : A.Renders (fun x y => A.Outcomes x.1 y.1 ∧ A.Activations i t x.2 y.2)
        (a.enter A.env run out r frames params) (b.enter A.other run' out r frames params) := by
      unfold Activation.enter
      rw [A.library]
      refine .deeper _ ?_
      cases out with
      | sink => exact (hrun r frames params _ _ hr hf).bind fun o o' ho => .pure ⟨ho, hab⟩
      | buffer slot =>
        refine (Renders.lift (hab.buffer (hout slot List.mem_cons_self))).bindEq fun text => ?_
        refine (Renders.capturing text (hrun r frames params _ _ hr hf)).bind fun x y hxy => ?_
        obtain ⟨o, written⟩ := x
        obtain ⟨o', written'⟩ := y
        obtain ⟨ho, rfl⟩ := hxy
        exact (Renders.lift (hab.setSame slot _)).bind fun c d hcd => .pure ⟨ho, hcd⟩
    refine henter.bind fun x y hxy => ?_
    obtain ⟨o, c⟩ := x
    obtain ⟨o', d⟩ := y
    obtain ⟨ho, hcd⟩ := hxy
    cases ho with
    | done => exact .pure (.goto hcd)
    | paused hcalls => exact .pure (.paused hcd (frames_reach hr hcalls))

variable (hab : A.Activations i t a b)

include hab

theorem Activations.attempt (p : Nat) {op : Op} (hop : op ∈ t.procedure.ops) :
    A.Renders (A.Progresses i t) (a.attempt A.env run p op) (b.attempt A.other run' p op) :=
  Renders.tryPause ((hab.plan hop p).bind fun _ _ hxy => perform hrun hxy) fun _ =>
    .pure (.paused hab fun _ h => by cases h)

omit hrun in
theorem Activations.save {op : Op} (hop : op ∈ t.procedure.ops) {point : Nat}
    (hpoint : op.point? = some point) (why : PauseReason) {calls : List PendingCall}
    (hcalls : A.Reaches calls) :
    Paired (fun _ => True) A.Outcomes (a.save point why calls) (b.save point why calls) := by
  unfold Activation.save
  rw [hab.template, hab.template']
  cases hentry : t.procedure.points[point]? with
  | none => exact hab.contradiction _
  | some entry =>
    have hlive := A.live i t.name t hab.reached hab.here op hop point entry hpoint hentry
    have hlocals : entry.live.map (b.locals.getD · .unset) =
        entry.live.map (a.locals.getD · .unset) := by
      refine List.map_congr_left fun n hn => ?_
      rw [Array.getD_eq_getD_getElem?, Array.getD_eq_getD_getElem?, hab.slots n (hlive n hn)]
    dsimp only
    rw [hlocals]
    exact .paused hcalls

theorem Activations.execute (fuel p : Nat) :
    A.Renders (A.Standings i t) (a.execute A.env run fuel p) (b.execute A.other run' fuel p) := by
  induction fuel generalizing a b p with
  | zero => exact .pure (.running hab)
  | succ fuel ih =>
    unfold Activation.execute
    rw [hab.template, hab.template']
    cases ho : t.procedure.ops[p]? with
    | none => exact .pure (.ended .done)
    | some op =>
      have hop := Array.mem_of_getElem? ho
      have hpoint : ∀ s x u, a.attempt A.env run p op s = (.ok x, u) →
          ∀ why c calls, x = .paused why c calls → op.point? ≠ none := by
        rintro s x u hx why c calls rfl
        exact Activation.point_of_paused hx
      refine ((hab.attempt hrun p hop).andLeft hpoint).bind fun x y hxy => ?_
      obtain ⟨hxy, hpoint⟩ := hxy
      cases hxy with
      | goto hcd => exact ih hcd _
      | paused hcd hcalls =>
        obtain ⟨point, hp⟩ := Option.ne_none_iff_exists'.1 (hpoint _ _ _ rfl)
        rw [hp]
        exact (Renders.lift (hcd.save hop hp _ hcalls)).bind fun o o' ho => .pure (.ended ho)

omit hrun in
theorem Activations.locals_eq (h : A.other.injected = A.env.injected) : b.locals = a.locals := by
  refine Array.ext_getElem? fun n => hab.slots n ?_
  rintro ⟨p, -, -, -, hne⟩
  exact hne (by rw [h])

omit hrun in
theorem Activations.stepBound (h : A.other.injected = A.env.injected) :
    b.stepBound A.other = a.stepBound A.env := by
  simp only [Activation.stepBound, Activation.longestList, hab.template, hab.template',
    hab.locals_eq h, h]

/-- Numbers of ops that are enough come to the same, also if they differ. -/
theorem Activations.finishBy {n m : Nat} (hnm : A.other.injected = A.env.injected → m = n) (p : Nat) :
    A.Renders A.Outcomes (a.finishBy A.env run n p) (b.finishBy A.other run' m p) := by
  have hsame : ∀ k, A.Renders A.Outcomes (a.finishBy A.env run k p) (b.finishBy A.other run' k p) := by
    intro k
    refine (hab.execute hrun k p).bind fun x y hxy => ?_
    cases hxy with
    | ended ho => exact .pure ho
    | running hcd => exact .lift (hcd.contradiction _)
  -- The bound counts lists of the injected record, so the two may be cut off at different ops.
  -- If the shorter run has ended, the longer one adds nothing to it.
  by_cases hi : A.other.injected = A.env.injected
  · cases hnm hi
    exact hsame n
  · intro s s' hs
    obtain hle | hle := Nat.le_total n m
    · obtain ⟨k, rfl⟩ := Nat.exists_eq_add_of_le hle
      obtain ⟨q, d, hd⟩ | hk := Activation.running_or_finishBy_add A.other run' n p b s'
      · refine .inr ⟨hi, .inl ?_⟩
        obtain ⟨hxy, -⟩ | ⟨-, ho | ⟨_, ho⟩⟩ := hab.execute hrun n p s s' hs
        · rw [hd] at hxy
          rcases hx : (a.execute A.env run n p s).1 with e | standing <;> rw [hx] at hxy
          · exact hxy.elim
          · cases hxy
            exact Activation.overruns_of_running hx
        · exact Renders.overruns_bind ho
        · cases hd.symm.trans ho
      · rw [hk k]
        exact hsame n s s' hs
    · obtain ⟨k, rfl⟩ := Nat.exists_eq_add_of_le hle
      obtain ⟨q, c, hc⟩ | hk := Activation.running_or_finishBy_add A.env run m p a s
      · refine .inr ⟨hi, .inr ?_⟩
        obtain ⟨hxy, -⟩ | ⟨-, ⟨_, ho⟩ | ho⟩ := hab.execute hrun m p s s' hs
        · rw [hc] at hxy
          rcases hy : (b.execute A.other run' m p s').1 with e | standing <;> rw [hy] at hxy
          · exact hxy.elim
          · cases hxy
            exact Activation.overruns_of_running hy
        · cases hc.symm.trans ho
        · exact Renders.overruns_bind ho
      · rw [hk k]
        exact hsame m s s' hs

theorem Activations.finish (p : Nat) :
    A.Renders A.Outcomes (a.finish A.env run p) (b.finish A.other run' p) := by
  refine (hab.execute hrun Activation.patience p).bind fun x y hxy => ?_
  cases hxy with
  | ended ho => exact .pure ho
  | running hcd => exact hcd.finishBy hrun (fun hi => hcd.stepBound hi) _

end Running

theorem valueIn_eq (p : ParamBinding) {j k r : Record}
    (h : p.isInjected = true → Record.read k p.name = Record.read j p.name) :
    p.valueIn k r = p.valueIn j r := by
  rw [p.valueIn_eq, p.valueIn_eq, ParamBinding.given, ParamBinding.given]
  cases hp : p.isInjected with
  | true => simp [h hp]
  | false => rfl

namespace Activations

variable (hab : A.Activations i t a b)

include hab

theorem fillParams {ps : List ParamBinding} (hps : ∀ p ∈ ps, p ∈ t.procedure.params) :
    Paired (fun _ => True) (A.Activations i t) (Activation.fillParams A.env.injected a ps)
      (Activation.fillParams A.other.injected b ps) := by
  induction ps generalizing a b with
  | nil => exact hab
  | cons p ps ih =>
    have hvalue : ¬ A.Hides t p.slot → Local.value (p.valueIn A.other.injected b.params) =
        .value (p.valueIn A.env.injected a.params) := by
      intro hseen
      rw [hab.params, valueIn_eq p fun hp => ?_]
      by_contra hne
      exact hseen ⟨p, hps p List.mem_cons_self, hp, rfl, fun h => hne h.symm⟩
    exact (hab.set hvalue).bind fun c d hcd => ih hcd fun q hq => hps q (List.mem_cons_of_mem _ hq)

theorem fillState (ps : List StateBinding) :
    Paired (fun _ => True) (A.Activations i t) (Activation.fillState a ps)
      (Activation.fillState b ps) := by
  induction ps generalizing a b with
  | nil => exact hab
  | cons p ps ih => exact (hab.setSame p.slot _).bind fun c d hcd => ih hcd

theorem putBack (xs : List (Nat × Local)) :
    Paired (fun _ => True) (A.Activations i t) (a.putBack xs) (b.putBack xs) := by
  induction xs generalizing a b with
  | nil => exact hab
  | cons x xs ih =>
    obtain ⟨n, l⟩ := x
    exact (hab.setSame n l).bind fun c d hcd => ih hcd

theorem restore {f : Frames} (hf : A.Reaches f.calls) :
    Paired (fun _ => True) (fun x y => x.1 = y.1 ∧ A.Activations i t x.2 y.2) (a.restore f)
      (b.restore f) := by
  have herror : ∀ {why : Inconsistency} {x y : PUnit → Except RenderError (Nat × Activation)},
      Paired (fun _ => True) (fun x y => x.1 = y.1 ∧ A.Activations i t x.2 y.2)
        (a.contradiction why >>= x) (b.contradiction why >>= y) :=
    (hab.contradiction (R := fun _ _ => False) _).bind fun _ _ hn => hn.elim
  unfold Activation.restore
  rw [hab.template, hab.template']
  by_cases hname : f.outer.template = t.name
  · simp only [hname, ne_eq, not_true_eq_false, if_false]
    cases t.procedure.points[f.outer.point]? with
    | none => exact hab.contradiction _
    | some entry =>
      by_cases hlive : entry.live.length = f.outer.locals.length
      · simp only [hlive, not_true_eq_false, if_false]
        refine (hab.putBack _).bind fun c d hcd => ⟨rfl, { hcd with waiting := rfl, calls := ?_ }⟩
        intro w hw
        dsimp only at hw
        split at hw <;> cases hw
        exact hf
      · simp only [hlive, not_false_eq_true, if_true]
        exact herror
  · simp only [hname, ne_eq, not_false_eq_true, if_true]
    exact herror

end Activations

section Rendering

theorem runTemplate_renders (hrun : A.Runners run run') :
    A.Runners (runTemplate A.env run) (runTemplate A.other run') := by
  intro r frames params held held' hr hf
  cases r with
  | host n =>
    simp only [runTemplate, A.library]
    cases A.env.library.hosts[n]? with
    | none => exact .fail _
    | some h =>
      cases h with
      | probe name =>
        simp only [HostTemplate.run, A.host n hr]
        exact (Renders.note _).bind fun _ _ _ => .pure .done
      | parts name texts =>
        have hparts : ∀ (texts : List String) (part : Nat),
            A.Renders A.Outcomes (runParts name part texts) (runParts name part texts) := by
          intro texts
          induction texts with
          | nil => exact fun part => .pure .done
          | cons x xs ih =>
            intro part
            refine Renders.poll.bindEq fun r => ?_
            cases r with
            | notReady => exact .pure (.paused fun _ h => by cases h)
            | ready => exact (Renders.append x).bindEq fun _ => ih (part + 1)
        exact hparts _ _
  | compiled n name =>
    simp only [runTemplate, A.library]
    cases hc : A.env.library.compiled? n name with
    | none => exact .fail _
    | some c =>
      obtain rfl := Library.name_of_compiled? hc
      have hempty : A.Activations n c
          ⟨n, c, params, Array.replicate c.procedure.layout.size .unset, none, held⟩
          ⟨n, c, params, Array.replicate c.procedure.layout.size .unset, none, held'⟩ :=
        ⟨rfl, rfl, rfl, rfl, hr, hc, rfl, rfl, fun _ _ => rfl, rfl, fun _ h => by cases h⟩
      refine (Renders.lift ((hempty.fillParams fun _ hp => hp).bind
        fun c d hcd => hcd.fillState _)).bind fun a b hab => ?_
      cases frames with
      | none => exact hab.finish hrun 0
      | some f =>
        refine (Renders.lift (hab.restore (hf f rfl))).bind fun x y hxy => ?_
        obtain ⟨p, a⟩ := x
        obtain ⟨q, b⟩ := y
        obtain ⟨rfl, hab⟩ := hxy
        exact hab.finish hrun p

theorem runWithin_renders (levels : Nat) :
    A.Runners (runWithin A.env levels) (runWithin A.other levels) := by
  induction levels with
  | zero =>
    refine runTemplate_renders fun r _ _ _ _ _ _ => ?_
    rw [A.library, A.maxDepth]
    exact .fail _
  | succ levels ih => exact runTemplate_renders ih

variable {r : TemplateRef} (hr : A.reach r)

include hr

theorem outermost {frames : Option Frames} (hf : ∀ f, frames = some f → A.Reaches f.calls)
    (params : Record) :
    A.Renders Eq (Render.outermost A.env r frames params)
      (Render.outermost A.other r frames params) := by
  refine Renders.get.bind fun s s' hs => ?_
  rw [A.maxDepth, hs.depth]
  refine (runWithin_renders _ r frames params _ _ hr hf).bind fun o o' ho => ?_
  cases ho with
  | done => exact .pure rfl
  | @paused f why hcalls =>
    refine .modifyGet fun s s' hs => ⟨?_, { hs with cells := ?_, saved := ?_ }⟩
    · rw [hs.cells]
    · rw [hs.cells]
    · intro g hg
      obtain hg | hg := Array.mem_push.1 hg
      · exact hs.saved g hg
      · cases hg
        exact hcalls

theorem start (params : Record) :
    A.Renders Eq (Render.start A.env r params) (Render.start A.other r params) :=
  Renders.takeHold.bindEq fun _ => outermost hr (fun _ h => by cases h) params

omit hr in
theorem takeSaved (cell : Nat) :
    A.Renders (fun f g => f = g ∧ A.Reaches f.calls) (Render.takeSaved cell)
      (Render.takeSaved cell) := by
  refine Renders.get.bind fun s s' hs => ?_
  rw [hs.cells]
  cases hcell : (s.cells[cell]?).join with
  | none => exact .fail _
  | some f =>
    have hf : A.Reaches f.calls := by
      have hmem : s.cells[cell]? = some (some f) := Option.join_eq_some_iff.1 hcell
      exact hs.saved f (Array.mem_of_getElem? hmem)
    refine .bind (R := fun _ _ => True) (.modify fun s s' hs => ?_) fun _ _ _ => .pure ⟨rfl, hf⟩
    refine { hs with cells := congrArg (·.setIfInBounds cell none) hs.cells, saved := fun g hg => ?_ }
    obtain hg | hg := Array.mem_or_eq_of_mem_setIfInBounds hg
    · exact hs.saved g hg
    · cases hg

theorem resume (params : Record) (o : Outcome) :
    A.Renders Eq (Render.resume A.env r params o) (Render.resume A.other r params o) := by
  cases o with
  | done => exact .fail _
  | suspended st =>
    have hrest : A.Renders Eq
        (do Render.outermost A.env r (some (← Render.takeSaved st.cell)) params)
        (do Render.outermost A.other r (some (← Render.takeSaved st.cell)) params) := by
      refine (takeSaved st.cell).bind fun f g hfg => ?_
      obtain ⟨rfl, hf⟩ := hfg
      exact outermost hr (fun _ h => by cases h; exact hf) params
    simp only [Render.resume, A.library]
    by_cases hname : st.template = A.env.library.nameOf r
    · simp only [hname, ne_eq, not_true_eq_false, if_false]
      exact hrest
    · simp only [hname, ne_eq, not_false_eq_true, if_true]
      exact (Renders.fail (R := fun _ _ => False) _).bind fun _ _ hn => hn.elim

end Rendering

end Accord

end ResumableTemplates
