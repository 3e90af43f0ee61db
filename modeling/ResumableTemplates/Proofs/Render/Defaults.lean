import ResumableTemplates.Proofs.Render.Deferred
import ResumableTemplates.Proofs.Render.Fallback

/-! Defaults. A parameter is its default where it is given nothing or null, and for as long as a template
is rendered, however often that is put off. What a provider has is not looked at: a parameter that is
given a lazy null is null. So null may be deferred only where no default would be taken for it. -/
namespace ResumableTemplates

/-- Each parameter is bound under its name, with the constant that its default is. -/
theorem Compile.params_bound {ps : List Param} {bs : List ParamBinding} {σ τ : CompileState}
    (h : (params ps).Yields σ bs τ) : ∀ p ∈ ps, ∃ b ∈ bs, b.name = p.name ∧
      b.isInjected = p.isInjected ∧ ∀ e, p.default = some e → ∃ d, e.fold? = some d ∧ b.default = some d := by
  induction ps generalizing σ bs with
  | nil => exact fun _ hp => by cases hp
  | cons p ps ih =>
    obtain ⟨b, υ, hb, h⟩ := yields_bind.1 h
    obtain ⟨bs, _, hbs, h⟩ := yields_bind.1 h
    obtain ⟨rfl, rfl⟩ := yields_pure.1 h
    obtain ⟨-, hname, hinjected, hdefault, hconstant⟩ := param_yields hb
    rw [List.forall_mem_cons]
    refine ⟨⟨b, List.mem_cons_self, hname, hinjected, fun e he => ?_⟩, fun q hq => ?_⟩
    · rw [he, Option.bind_some] at hdefault hconstant
      obtain ⟨d, hd⟩ := Option.ne_none_iff_exists'.1 fun hnone => Option.some_ne_none e (hconstant hnone)
      exact ⟨d, hd, hdefault.trans hd⟩
    · obtain ⟨c, hc, hbound⟩ := ih hbs q hq
      exact ⟨c, List.mem_cons_of_mem _ hc, hbound⟩

theorem Value.IsPlain.force_apply {env : Env} {v : Value} (h : v.IsPlain) (s : RenderState) :
    Render.force env v s = (.ok v, s) := by
  cases v with
  | lazy i v => exact h.1.elim
  | _ => rfl

theorem Render.force_cases (env : Env) (v : Value) (s : RenderState) :
    ∃ u, force env v s = (.ok v.forced, u) ∨ force env v s = (.error (.pause .valueNotReady), u) := by
  induction v using Value.forced.induct generalizing s with
  | case1 i v ih =>
    obtain ⟨isReady, t, hask⟩ : ∃ isReady t, ask env i s = (.ok isReady, t) := ⟨_, _, rfl⟩
    rw [force, bind_apply, hask]
    cases isReady with
    | true => exact ih t
    | false => exact ⟨t, .inr rfl⟩
  | case2 v hl =>
    have hv : force env v s = (.ok v, s) := by
      cases v <;> first | rfl | exact absurd rfl (hl _ _)
    have hforced : v.forced = v := by cases v <;> first | rfl | exact absurd rfl (hl _ _)
    exact ⟨s, .inl (hforced.symm ▸ hv)⟩

namespace Activation

variable {env : Env} {run : Runner} {a b : Activation} {t : CompiledTemplate} {i r : Record} {p q : Nat}

theorem getElem?_set {slot : Nat} {l : Local} (h : a.set slot l = .ok b) :
    b.locals[slot]? = some l := by
  unfold set at h
  split at h <;> cases h
  simp [*]

theorem fillParams_slots {ps : List ParamBinding} (hslots : (ps.map (·.slot)).Nodup)
    (h : a.fillParams i ps = .ok b) : ∀ p ∈ ps, b.locals[p.slot]? = some (.value (p.valueIn i a.params)) := by
  induction ps generalizing a with
  | nil => exact fun _ hp => by cases hp
  | cons p ps ih =>
    rw [List.map_cons, List.nodup_cons] at hslots
    obtain ⟨c, hc, h⟩ := Except.bind_ok_iff.1 h
    have hac : a.Changed (fun _ => True) [p.slot] c :=
      set_changed hc List.mem_cons_self fun _ _ => trivial
    have hcb : c.Changed (fun _ => True) (ps.map (·.slot)) b :=
      fillParams_changed trivial (fun _ _ => trivial) (fun _ _ => trivial) (fun _ _ _ _ => trivial) h
    rw [List.forall_mem_cons]
    constructor
    · rw [hcb.other hslots.1]
      exact getElem?_set hc
    · rw [← hac.params]
      exact ih hslots.2 h

/-- Holds of an activation of a template that has the parameters of two records in its header. -/
structure Filled (t : CompiledTemplate) (i r : Record) (a : Activation) : Prop where
  template : a.template = t
  slots : ∀ p ∈ t.procedure.params, a.locals[p.slot]? = some (.value (p.valueIn i r))

section Certified

variable {known : String → UInt64 → Prop} {notes : Nat → Typing} (hf : Flow known t notes)

include hf

theorem Filled.changed (ha : a.Filled t i r) {P : Value → Prop} {slots : List Nat}
    (hab : a.Changed P slots b) (hslots : ∀ n ∈ slots, t.procedure.header ≤ n) : b.Filled t i r where
  template := hab.template.trans ha.template
  slots p hp := by
    have hlt := hf.slot_lt (List.mem_append_left _ (List.mem_map_of_mem hp))
    rw [hab.other fun hmem => Nat.not_le.2 hlt (hslots _ hmem)]
    exact ha.slots p hp

theorem start_filled {unit : Nat} {held : TemplateRef → Bool}
    (h : start i unit t r held = .ok a) : a.Filled t i r := by
  obtain ⟨c, hc, h⟩ := Except.bind_ok_iff.1 h
  have hnodup : (t.procedure.params.map (·.slot) ++ t.procedure.state.map (·.slot)).Nodup := by
    rw [hf.header]
    exact List.nodup_range
  obtain ⟨hparams, -, hdisjoint⟩ := List.nodup_append.1 hnodup
  have hca := fillState_changed (P := fun _ => True) (fun _ _ => trivial) h
  refine ⟨(start_eq (Except.bind_ok_iff.2 ⟨c, hc, h⟩)).2.1, fun p hp => ?_⟩
  rw [hca.other fun hmem => hdisjoint _ (List.mem_map_of_mem hp) _ hmem rfl]
  exact fillParams_slots hparams hc p hp

theorem Filled.restore (ha : a.Filled t i r) {f : Frames} {op : Op}
    (ho : t.procedure.ops[p]? = some op) (hp : op.point? = some f.outer.point)
    (h : a.restore f = .ok (q, b)) : b.Filled t i r := by
  obtain ⟨live, hpoint, hlive, -⟩ := hf.points p op _ ho hp
  obtain ⟨e, he, hab, -⟩ := restore_changed h
  rw [ha.template, hpoint] at he
  cases he
  have hb := ha.changed hf hab fun n hn => (hlive n hn).1
  exact ⟨hb.template, hb.slots⟩

theorem Filled.attempt (ha : a.Filled t i r) {op : Op} (ho : t.procedure.ops[p]? = some op)
    {s u : RenderState} (h : a.attempt env run p op s = (.ok (.goto q b), u)) : b.Filled t i r := by
  obtain ⟨act, v, hplan, -, hchanged, -⟩ := attempt_goto h
  exact ha.changed hf (hchanged _ (plan_changes hplan)) (hf.writes p op ho)

theorem Filled.execute (ha : a.Filled t i r) {fuel : Nat} {s u : RenderState}
    (h : a.execute env run fuel p s = (.ok (.running q b), u)) : b.Filled t i r := by
  induction fuel generalizing p a s with
  | zero =>
    cases h
    exact ha
  | succ fuel ih =>
    rw [Activation.execute] at h
    cases ho : a.template.procedure.ops[p]? with
    | none =>
      rw [ho] at h
      cases h
    | some op =>
      simp only [ho, Render.bind_apply] at h
      rcases hx : a.attempt env run p op s with ⟨e | progress, v⟩ <;> rw [hx] at h
      · cases h
      · cases progress with
        | goto p' c => exact ih (ha.attempt hf (ha.template ▸ ho) hx) h
        | paused why c calls =>
          simp only [Render.bind_apply, Render.liftM_apply] at h
          cases hsave : c.save (op.point?.getD 0) why calls <;> rw [hsave] at h <;> cases h

end Certified

end Activation

/-- The activations of a template in the renders of it with a record, each with where it stands: fresh
ones, what is restored at a resume point of an op, and what ops lead on to from there. -/
inductive CompiledTemplate.Arises (env : Env) (unit : Nat) (t : CompiledTemplate) (params : Record) :
    Nat → Activation → Prop
  | fresh : Activation.start env.injected unit t params held = .ok a → Arises env unit t params 0 a
  | restored {op : Op} {f : Frames} {p : Nat} : t.procedure.ops[p]? = some op → op.point? = some f.outer.point →
      Activation.start env.injected unit t params held = .ok a → a.restore f = .ok (q, b) →
      Arises env unit t params q b
  | executed : Arises env unit t params p a →
      a.execute env run fuel p s = (.ok (.running q b), u) → Arises env unit t params q b

/-- The header is as it was filled for as long as a template is rendered. -/
theorem CompiledTemplate.Arises.filled {env : Env} {unit : Nat} {t : CompiledTemplate} {params : Record}
    {known : String → UInt64 → Prop} {notes : Nat → Typing} (hf : Flow known t notes) {p : Nat}
    {a : Activation} (h : t.Arises env unit params p a) : a.Filled t env.injected params := by
  induction h with
  | fresh ha => exact Activation.start_filled hf ha
  | restored ho hp ha hb => exact (Activation.start_filled hf ha).restore hf ho hp hb
  | executed _ hb ih => exact ih.execute hf hb

/-- Reading a parameter gives its default where it is given nothing or null, and else what it is given,
once that is ready. -/
theorem Activation.Filled.reads {env : Env} {t : CompiledTemplate} {r : Record} {a : Activation}
    (ha : a.Filled t env.injected r) {b : ParamBinding} (hb : b ∈ t.procedure.params) {d : Value}
    (hd : b.default = some d) (hplain : d.IsPlain) (s : RenderState) :
    match Record.field? (if b.isInjected then env.injected else r) b.name with
    | none | some .null => (Code.slot b.slot).eval env a s = (.ok d, s)
    | some v => ∃ u, (Code.slot b.slot).eval env a s = (.ok v.forced, u) ∨
        (Code.slot b.slot).eval env a s = (.error (.pause .valueNotReady), u) := by
  have hread : (Code.slot b.slot).eval env a s = Render.force env (b.valueIn env.injected r) s := by
    rw [Code.eval, Render.forced, Code.read, Activation.variable_of (ha.slots b hb)]
    rfl
  rw [hread, ParamBinding.valueIn]
  cases Record.field? (if b.isInjected then env.injected else r) b.name with
  | none =>
    rw [hd]
    exact hplain.force_apply s
  | some v =>
    cases v with
    | null =>
      rw [hd]
      exact hplain.force_apply s
    | _ => exact Render.force_cases env _ s

/-- Holds of a value that stands for another: the value itself, or for null also providers that yield it. -/
def Value.DefersNull (u v : Value) : Prop := u = v ∨ v = .null ∧ u.forced = .null

theorem Value.DefersNull.alike {u v : Value} (h : u.DefersNull v) : u.Alike True v := by
  obtain rfl | ⟨rfl, hu⟩ := h
  · exact .refl u
  · exact ⟨hu, .inr ⟨trivial, rfl⟩⟩

/-- Holds of a record with the fields of another, some nulls of which only providers have so far. -/
def Record.DefersNulls (q r : Record) : Prop :=
  List.Forall₂ (fun g f => g.1 = f.1 ∧ g.2.DefersNull f.2) q r

theorem Record.DefersNulls.alike {q r : Record} (h : q.DefersNulls r) : Alike True q r :=
  .of_forall₂ (h.imp fun _ _ hgf => ⟨hgf.1, hgf.2.alike⟩)

/-- Nulls that are deferred do not show in a render that comes to its end, where no template that it
enters has a parameter that would have taken a default for one. -/
theorem Schedule.nulls_deferred {env : Env} {units : Nat → Prop} (hlib : env.library.IsCompiled)
    (hinv : env.Involves units) {unit : Nat} {name : String} (hu : units unit)
    (hc : env.library.compiled? unit name ≠ none) {params params' injected : Record}
    (hp : params'.DefersNulls params) (hi : injected.DefersNulls env.injected) {s : RenderState}
    (hs : s.capture = none)
    (hmiss : ∀ t r, Enters (Env.world { env with injected } s.bindings) s.depth
      (.template (.compiled unit name) none params') t r →
        ∀ p ∈ t.procedure.params, ¬ p.Misses injected r)
    {σ τ : Schedule} {fuel fuel' n m : Nat} {u v : RenderState}
    (h : σ.drive env (.compiled unit name) params fuel s = (.ok (some n), u))
    (h' : τ.drive { env with injected } (.compiled unit name) params' fuel' s = (.ok (some m), v)) :
    v.chunks = u.chunks := by
  obtain ⟨deeds, hdeeds, hl⟩ := done_leads hlib hinv.confines hu hc hs h
  have hlib' : Library.IsCompiled ({ env with injected } : Env).library := hlib
  obtain ⟨deeds', hdeeds', hl'⟩ := done_leads hlib'
    ⟨hinv.template, hinv.delegate⟩ hu hc hs h'
  obtain ⟨cert⟩ := hlib.certificate
  have halike : World.Alike True (Env.world { env with injected } s.bindings)
      (env.world s.bindings) := ⟨rfl, rfl, rfl, rfl, rfl, rfl, hi.alike⟩
  have hwork : Work.Alike True cert (.template (.compiled unit name) none params')
      (.template (.compiled unit name) none params) := .template (fun _ h => by cases h) hp.alike
  obtain ⟨e, hl'', -, -⟩ := hl'.alike halike rfl (Setting.tolerates_all _) hwork fun _ => hmiss
  rw [RenderState.chunks_of_deeds hdeeds, RenderState.chunks_of_deeds hdeeds',
    (hl''.deterministic hl).1]

theorem Enters.exists_call {w : World} {d p : Nat} {j : Work} {a : Activation} {t : CompiledTemplate}
    {r : Record} (h : Enters w d j t r) (hj : j = .ops p a ∨ j = .op p a) :
    ∃ op ∈ a.template.procedure.ops, op.IsCall := by
  induction h generalizing p a with
  | self | fresh | resumed => obtain h | h := hj <;> cases h
  | here _ ih =>
    obtain ⟨⟨⟩⟩ | ⟨⟨⟩⟩ := hj
    exact ih (.inr rfl)
  | next hl _ ih =>
    obtain ⟨⟨⟩⟩ | ⟨⟨⟩⟩ := hj
    rw [← hl.on_same.2.1]
    exact ih (.inl rfl)
  | call ho ha =>
    obtain ⟨⟨⟩⟩ | ⟨⟨⟩⟩ := hj
    obtain ⟨-, ⟨_, _, _, _, rfl⟩, -⟩ := (Activation.action_changes' ha).call _ _ _ _ _ _ rfl
    exact ⟨_, Array.mem_of_getElem? ho, _, _, _, _, _, rfl⟩

/-- A parameter reads as its default exactly where it is given nothing or null, in every activation of its
template; given a lazy value, it reads as what is behind that, null included. So nulls that only providers
have so far do not show in a render that comes to its end, unless one of them keeps a parameter from a
default other than null. -/
theorem Schedule.reads_defaults :
    (∀ (source : Template) (joins : Bool) (t : CompiledTemplate), source.compile joins = .ok t →
      ∀ p ∈ source.params, ∀ e, p.default = some e → ∃ b ∈ t.procedure.params, ∃ d,
        b.name = p.name ∧ e.fold? = some d ∧ ∀ env unit params q a, t.Arises env unit params q a → ∀ s,
          match Record.field? (if p.isInjected then env.injected else params) p.name with
          | none | some .null => (Code.slot b.slot).eval env a s = (.ok d, s)
          | some v => ∃ u, (Code.slot b.slot).eval env a s = (.ok v.forced, u) ∨
              (Code.slot b.slot).eval env a s = (.error (.pause .valueNotReady), u)) ∧
    ∀ (env : Env) (units : Nat → Prop) (unit : Nat) (name : String) (params params' injected : Record)
      (s u v : RenderState) (σ τ : Schedule) (fuel fuel' n m : Nat),
      env.library.IsCompiled → env.Involves units → units unit →
      env.library.compiled? unit name ≠ none → params'.DefersNulls params →
      injected.DefersNulls env.injected → s.capture = none →
      (∀ t r, Enters (Env.world { env with injected } s.bindings) s.depth
        (.template (.compiled unit name) none params') t r →
          ∀ p ∈ t.procedure.params, ¬ p.Misses injected r) →
      σ.drive env (.compiled unit name) params fuel s = (.ok (some n), u) →
      τ.drive { env with injected } (.compiled unit name) params' fuel' s = (.ok (some m), v) →
      v.chunks = u.chunks := by
  constructor
  · intro source joins t hok p hp e he
    obtain ⟨-, υ, χ, ψ, calls, hparts, -⟩ := Template.compile_ok hok
    obtain ⟨b, hb, hname, hinjected, hdefault⟩ := Compile.params_bound hparts.params p hp
    obtain ⟨d, hd, hbd⟩ := hdefault e he
    obtain ⟨notes, hf⟩ := (Template.compile_flow hok fun v _ => v.known_true).1
    refine ⟨b, hb, d, hname, hd, fun env unit params q a ha s => ?_⟩
    have hreads := (ha.filled hf).reads hb hbd (hf.defaults b hb d hbd) s
    rwa [hname, hinjected] at hreads
  · intro env units unit name params params' injected s u v σ τ fuel fuel' n m hlib hinv hu hc hp hi hs
      hmiss h h'
    exact Schedule.nulls_deferred hlib hinv hu hc hp hi hs hmiss h h'

def TemplateFile.welcome : TemplateFile :=
  ⟨"", [], [{ Template.empty "welcome" with
    params := [⟨"who", false, false, some (.literal (.str "friend")), .unknown⟩, .required "title"]
    body := [.print (.var (.param "title")), .text " ", .print (.var (.param "who"))] }]⟩

def CompiledTemplate.welcome : CompiledTemplate :=
  ⟨"welcome", false, .html,
    ⟨#[.print 0 .sink (.slot 1), .text 1 .sink " ", .print 2 .sink (.slot 0)],
      #[⟨0, []⟩, ⟨1, []⟩, ⟨2, []⟩], #[⟨"who", .unknown, .param⟩, ⟨"title", .unknown, .param⟩],
      [⟨0, "who", false, some (.str "friend")⟩, ⟨1, "title", false, none⟩], []⟩, []⟩

def Library.welcome : Library := ⟨#[.of [.welcome] [.welcome]], #[], []⟩

theorem CompiledTemplate.welcome_compiled {t : Template}
    (ht : TemplateFile.welcome.templates = [t]) : t.compile true = .ok welcome := by
  cases ht
  rw [Template.compile_eq]
  rfl

theorem Library.welcome_isCompiled : welcome.IsCompiled := by
  intro u hu
  obtain rfl : u = .of [.welcome] [.welcome] := by simpa [welcome] using hu
  exact ⟨{}, [.welcome], .empty, CompiledUnit.compile_single rfl
    (CompiledTemplate.welcome_compiled rfl)⟩

/-- A welcome that is given null for whom it is to is to a friend; given a lazy null, it is to null. -/
theorem Schedule.lazy_null_is_no_default :
    let env := Env.plain .welcome 1
    let welcome : TemplateRef := .compiled 0 "welcome"
    let letter (who : Value) : Record := [("title", .str "dear"), ("who", who)]
    let s := RenderState.initial (.buffer "")
    let fast : Schedule := ⟨fun _ _ => true, .buffer ""⟩
    env.library.IsCompiled ∧
      (fast.drive env welcome (letter .null) 0 s).1.toOption.join = some 0 ∧
      (fast.drive env welcome (letter .null) 0 s).2.chunks = ["dear", " ", "friend"] ∧
      (fast.drive env welcome (letter (.lazy 0 .null)) 0 s).1.toOption.join = some 0 ∧
      (fast.drive env welcome (letter (.lazy 0 .null)) 0 s).2.chunks = ["dear", " ", "null"] := by
  intro env welcome letter s fast
  refine ⟨Library.welcome_isCompiled, ?_, ?_, ?_, ?_⟩ <;> decide +kernel

/-- A welcome to nobody in particular is to a friend, and one whose title is null is the same if only
providers have that. -/
theorem Schedule.reads_defaults_welcome :
    let env := Env.plain .welcome 1
    let welcome : TemplateRef := .compiled 0 "welcome"
    let ada (title : Value) : Record := [("title", title), ("who", .str "Ada")]
    let s := RenderState.initial (.buffer "")
    let fast : Schedule := ⟨fun _ _ => true, .buffer ""⟩
    let slow : Schedule := ⟨fun _ asked => 0 < asked, .buffer ""⟩
    (∀ a, Activation.start [] 0 .welcome [] (fun _ => false) = .ok a →
      ∃ b ∈ CompiledTemplate.welcome.procedure.params, b.name = "who" ∧
        (Code.slot b.slot).eval env a s = (.ok (.str "friend"), s)) ∧
      env.library.IsCompiled ∧ (ada (.lazy 0 (.lazy 1 .null))).DefersNulls (ada .null) ∧
      (slow.drive env welcome (ada (.lazy 0 (.lazy 1 .null))) 2 s).1.toOption.join = some 2 ∧
      (slow.drive env welcome (ada (.lazy 0 (.lazy 1 .null))) 2 s).2.chunks =
        (fast.drive env welcome (ada .null) 0 s).2.chunks := by
  intro env welcome ada s fast slow
  obtain ⟨hreads, hnulls⟩ := Schedule.reads_defaults
  have hwho : ∀ a, Activation.start [] 0 .welcome [] (fun _ => false) = .ok a →
      ∃ b ∈ CompiledTemplate.welcome.procedure.params, b.name = "who" ∧
        (Code.slot b.slot).eval env a s = (.ok (.str "friend"), s) := by
    intro a ha
    obtain ⟨source, hsource⟩ : ∃ source, TemplateFile.welcome.templates = [source] := ⟨_, rfl⟩
    obtain ⟨b, hb, d, hname, hd, hall⟩ := hreads source true .welcome (CompiledTemplate.welcome_compiled hsource)
      ⟨"who", false, false, some (.literal (.str "friend")), .unknown⟩
      (by cases hsource; exact List.mem_cons_self) _ rfl
    cases hd
    exact ⟨b, hb, hname, hall env 0 [] 0 a (.fresh ha) s⟩
  have ends : ∀ {y : Except Stop (Option Nat) × RenderState} {n}, y.1.toOption.join = some n →
      y = (.ok (some n), y.2) := by
    rintro ⟨_ | _ | m, v⟩ n h <;> cases h
    rfl
  have hdefers : (ada (.lazy 0 (.lazy 1 .null))).DefersNulls (ada .null) :=
    .cons ⟨rfl, .inr ⟨rfl, rfl⟩⟩ (.cons ⟨rfl, .inl rfl⟩ .nil)
  have hslow : (slow.drive env welcome (ada (.lazy 0 (.lazy 1 .null))) 2 s).1.toOption.join = some 2 := by
    decide +kernel
  have hfast : (fast.drive env welcome (ada .null) 0 s).1.toOption.join = some 0 := by decide +kernel
  refine ⟨hwho, Library.welcome_isCompiled, hdefers, hslow, ?_⟩
  refine hnulls env (fun _ => True) 0 "welcome" (ada .null) _ [] s _ _ fast slow 0 2 0 2
    Library.welcome_isCompiled (.plain _ _) trivial (fun h => by cases h) hdefers .nil rfl ?_
    (ends hfast) (ends hslow)
  intro t r henters p hp hmiss
  cases henters with
  | self hc =>
    cases hc
    have hp : p ∈ CompiledTemplate.welcome.procedure.params := hp
    simp only [CompiledTemplate.welcome, List.mem_cons, List.not_mem_nil, or_false] at hp
    obtain rfl | rfl := hp
    · cases hmiss.yields
    · exact hmiss.default rfl
  | fresh hc ha h =>
    cases hc
    obtain ⟨op, hop, point, out, callee, base, args, rfl⟩ := h.exists_call (.inl rfl)
    rw [(Activation.start_eq ha).2.1] at hop
    simp [CompiledTemplate.welcome] at hop

end ResumableTemplates
