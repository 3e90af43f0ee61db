import ResumableTemplates.Proofs.Render.Consistency
import ResumableTemplates.Proofs.Render.Dependencies
import ResumableTemplates.Proofs.Render.Isolation
import ResumableTemplates.Proofs.Render.Protocol

/-! Metadata of injected reads. Two renders of a template whose injected records read the same wherever
the metadata of the templates that it may lead to says come to the same, though every injected parameter
is copied at each entry, and saved with no activation. -/
namespace ResumableTemplates

/-- The templates that a template may lead to: by the callees that its metadata lists, which its own unit
has or else the lookup, and by what the lookup has for any variant of the delegates there. -/
inductive Library.LeadsTo (lib : Library) (lookup : Lookup) (t : TemplateRef) : TemplateRef → Prop
  | self : LeadsTo lib lookup t t
  | own : LeadsTo lib lookup t (.compiled unit name) → lib.metadata? unit name = some m →
      callee ∈ m.callees → lib.compiled? unit callee = some c →
      LeadsTo lib lookup t (.compiled unit callee)
  | lookedUp : LeadsTo lib lookup t (.compiled unit name) → lib.metadata? unit name = some m →
      callee ∈ m.callees → lib.compiled? unit callee = none →
      lookup.template? callee = some u → LeadsTo lib lookup t u
  | delegate : LeadsTo lib lookup t (.compiled unit name) → lib.metadata? unit name = some m →
      d ∈ m.delegateCallees → lookup.delegate? d variant = some u → LeadsTo lib lookup t u

/-- Holds of injected records that read the same wherever metadata says that a template, or one that it
may lead to, reads them. -/
def Library.ReadsAlike (lib : Library) (lookup : Lookup) (t : TemplateRef) (i j : Record) : Prop :=
  ∀ unit name m, lib.LeadsTo lookup t (.compiled unit name) → lib.metadata? unit name = some m →
    ∀ n ∈ m.injected, Record.read j n = Record.read i n

/-- Holds of what two renders of a template read, if they read the same but for injected fields that no
metadata lists, and all units that they may involve are there for both. -/
structure Library.Sees (lib : Library) (services : Lookup) (t : TemplateRef) (env other : Env) :
    Prop where
  library : env.library = lib
  library' : other.library = lib
  lookup : env.lookup = services
  lookup' : other.lookup = services
  maxDepth : other.maxDepth = env.maxDepth
  isReady : other.isReady = env.isReady
  alive : ∀ unit name, lib.LeadsTo services t (.compiled unit name) →
    env.isAlive unit = true ∧ other.isAlive unit = true
  reads : lib.ReadsAlike services t env.injected other.injected

section Accords

variable {lib : Library} {lookup : Lookup} {t : TemplateRef} {env other : Env}

theorem Library.LeadsTo.found (hlib : env.library = lib) (hlookup : env.lookup = lookup) {unit : Nat}
    {name callee : String} (h : lib.LeadsTo lookup t (.compiled unit name)) {m : Metadata}
    (hm : lib.metadata? unit name = some m) (hcallee : callee ∈ m.callees) {u : TemplateRef}
    (hu : env.found unit callee = some u) : lib.LeadsTo lookup t u := by
  rw [Env.found, hlib, hlookup] at hu
  cases hc : lib.compiled? unit callee with
  | some c =>
    rw [hc] at hu
    cases hu
    exact .own h hm hcallee hc
  | none =>
    rw [hc] at hu
    exact .lookedUp h hm hcallee hc hu

def Library.Sees.accord (h : lib.Sees lookup t env other) (hlib : lib.IsCompiled)
    (hcompiled : ∀ u, lib.LeadsTo lookup t u → u.IsCompiled) : Accord where
  env := env
  other := other
  reach := lib.LeadsTo lookup t
  library := h.library'.trans h.library.symm
  lookup := h.lookup'.trans h.lookup.symm
  maxDepth := h.maxDepth
  isReady := h.isReady
  alive := h.alive
  host i hi := (hcompiled _ hi).elim
  clear unit name c hr hc op hop := by
    rw [h.library] at hc
    obtain ⟨joins, f, s, m, hok, hm, hdescribes⟩ := hlib.source hc
    exact Template.compile_clear hok
      (fun n hn => h.reads unit name m hr hm n ((hdescribes.injected.mem n).2 hn)) op hop
  live unit name c hr hc op hop point e hpoint he := by
    rw [h.library] at hc
    obtain ⟨joins, f, s, m, hok, hm, hdescribes⟩ := hlib.source hc
    exact Template.compile_saves hok hop hpoint he
  callee unit name c hr hc op hop site callee u hop' hu := by
    rw [h.library] at hc
    obtain ⟨joins, f, s, m, hok, hm, hdescribes⟩ := hlib.source hc
    obtain ⟨v, hv, hname⟩ := (Template.compile_comes hok op hop).names_callee (.of_callee? hop')
    exact hr.found h.library h.lookup hm (hdescribes.callee hv hname) hu
  delegate unit name c hr hc op hop d v allowEmpty variant u hop' hu := by
    rw [h.library] at hc
    obtain ⟨joins, f, s, m, hok, hm, hdescribes⟩ := hlib.source hc
    obtain ⟨w, hw, hname⟩ := (Template.compile_comes hok op hop).names_delegate hop'
    rw [h.lookup] at hu
    exact .delegate hr hm (hdescribes.delegateCallee hw hname) hu

end Accords

section Bounded

variable {lib : Library} (cert : Certificate lib fun _ _ _ => True)

def RenderState.SavesSound (t : TemplateRef) (s : RenderState) : Prop :=
  ∀ f, some f ∈ s.cells → FramesSound cert t f.outer f.calls

theorem Env.world_bounded (env : Env) (bindings : Table Site Binding) :
    (env.world bindings).Tolerates (fun e => ∀ template, e ≠ .internal template .tooManySteps)
      fun _ _ _ => True where
  other e h template he := by
    rw [he] at h
    cases h
  sites _ _ _ _ _ h template he := by
    have := world_template_error h
    rw [he] at this
    cases this
  elements _ _ _ _ _ _ _ h template he := by
    obtain h | ⟨-, h⟩ := world_element_error h
    · rw [he] at h
      cases h
    · cases h.symm.trans he

variable {cert}

theorem Call.outermost_bounded {c : Call} (hlib : c.env.library = lib)
    (halive : ∀ unit, c.env.isAlive unit = true) {frames : Option Frames}
    (hframes : ∀ f, frames = some f → FramesSound cert c.template f.outer f.calls) {s : RenderState}
    (hs : s.SavesSound cert c.template) :
    ¬ Accord.Overruns (Render.outermost c.env c.template frames c.params s).1 ∧
      (Render.outermost c.env c.template frames c.params s).2.SavesSound cert c.template := by
  let S : Setting lib fun _ _ _ => True :=
    ⟨c.env, s.bindings, cert, fun _ => True, fun _ => True, hlib, c.env.confines_true,
      Record.asksOnly_all _⟩
  have hresumes : ∀ f, frames = some f → S.Resumes c.template f := fun f hf =>
    (Setting.resumes_iff rfl).2 ⟨hframes f hf, fun d _ => d.callee.within_true⟩
  have hout := S.outermost_leads c.template.within_true c.params.asksOnly_all frames hresumes
    (s := s) rfl rfl
  change S.Outermost _ _ _ _ s (Render.outermost c.env c.template frames c.params s) at hout
  generalize Render.outermost c.env c.template frames c.params s = r at hout ⊢
  cases hout with
  | done hw =>
    refine ⟨fun ⟨_, h⟩ => (by cases h), ?_⟩
    rwa [RenderState.SavesSound, hw.cells]
  | suspended hw _ hf =>
    refine ⟨fun ⟨_, h⟩ => (by cases h), fun g hg => ?_⟩
    obtain hg | hg := Array.mem_push.1 hg
    · exact hs g (hw.cells ▸ hg)
    · cases hg
      exact hf.sound
  | failed hw hl =>
    refine ⟨?_, by rwa [RenderState.SavesSound, hw.cells]⟩
    rintro ⟨template, ⟨⟩⟩
    exact Setting.leads_tolerable (S.env.world_bounded S.bindings) hl hresumes template rfl
  | broken hw hbreak =>
    obtain ⟨e, rfl, -⟩ := hbreak.sink fun unit _ => halive unit
    refine ⟨fun ⟨_, h⟩ => (by cases h), ?_⟩
    rwa [RenderState.SavesSound, hw.cells]

theorem Call.run_bounded {c : Call} (hlib : c.env.library = lib)
    (halive : ∀ unit, c.env.isAlive unit = true) {s : RenderState}
    (hs : s.SavesSound cert c.template) :
    ¬ Accord.Overruns (c.run s).1 ∧ (c.run s).2.SavesSound cert c.template := by
  have hrefused : ∀ {e : RenderError}, (∀ template, e ≠ .internal template .tooManySteps) →
      ¬ Accord.Overruns (Except.error (Stop.failure e) : Except Stop Outcome) ∧
        s.SavesSound cert c.template := fun he => ⟨fun ⟨_, h⟩ => (by cases h; exact he _ rfl), hs⟩
  unfold Call.run
  cases c.source with
  | none =>
    simp only [Render.start, Render.takeHold, Render.bind_apply, Render.modifyGet_apply]
    exact outermost_bounded hlib halive (fun _ h => by cases h) hs
  | some o =>
    cases o with
    | done => exact hrefused fun _ h => by cases h
    | suspended st =>
      dsimp only
      by_cases hname : c.env.library.nameOf c.template = st.template
      · cases hcell : (s.cells[st.cell]?).join with
        | none =>
          rw [Render.resume_taken hname hcell]
          exact hrefused fun _ h => by cases h
        | some f =>
          have hf : s.cells[st.cell]? = some (some f) := Option.join_eq_some_iff.1 hcell
          rw [Render.resume_first hname hf]
          refine outermost_bounded hlib halive (fun g hg => ?_) fun g hg => ?_
          · cases hg
            exact hs f (Array.mem_of_getElem? hf)
          · obtain hg | hg := Array.mem_or_eq_of_mem_setIfInBounds hg
            · exact hs g hg
            · cases hg
      · rw [Render.resume_foreign hname]
        exact hrefused fun _ h => by cases h

end Bounded

/-- Holds of a call of a template that finds all that it may lead to. -/
structure Call.Meets (c : Call) (lib : Library) (services : Lookup) (t : TemplateRef) : Prop where
  library : c.env.library = lib
  lookup : c.env.lookup = services
  template : c.template = t
  alive : ∀ unit name, lib.LeadsTo services t (.compiled unit name) → c.env.isAlive unit = true

def Call.injecting (r : Record) (c : Call) : Call := { c with env := { c.env with injected := r } }

theorem Call.Meets.injecting {c : Call} {lib : Library} {lookup : Lookup} {t : TemplateRef}
    (h : c.Meets lib lookup t) (r : Record) : (c.injecting r).Meets lib lookup t := ⟨h.1, h.2, h.3, h.4⟩

/-- Holds of states of two renders of a template that are the same but for what sites have found, and in
which every saved render can go on. -/
structure RenderState.Abreast {lib : Library} (cert : Certificate lib fun _ _ _ => True)
    (lookup : Lookup) (t : TemplateRef) (s u : RenderState) : Prop where
  same : u = { s with bindings := u.bindings }
  settles : lib.Settles s.bindings
  settles' : lib.Settles u.bindings
  reaches : ∀ f, some f ∈ s.cells → ∀ c ∈ f.calls, lib.LeadsTo lookup t c.callee
  sound : s.SavesSound cert t

theorem RenderState.Abreast.left {lib : Library} {cert : Certificate lib fun _ _ _ => True}
    {lookup : Lookup} {t : TemplateRef} {s u : RenderState} (h : s.Abreast cert lookup t u) :
    s.Abreast cert lookup t s := { h with same := rfl, settles' := h.settles }

theorem RenderState.Abreast.right {lib : Library} {cert : Certificate lib fun _ _ _ => True}
    {lookup : Lookup} {t : TemplateRef} {s u : RenderState} (h : s.Abreast cert lookup t u) :
    u.Abreast cert lookup t u where
  same := rfl
  settles := h.settles'
  settles' := h.settles'
  reaches := by
    rw [h.same]
    exact h.reaches
  sound := by
    rw [h.same]
    exact h.sound

namespace Call

variable {lib : Library} (hlib : lib.IsCompiled) {cert : Certificate lib fun _ _ _ => True}
  {lookup : Lookup} {t : TemplateRef} (hcompiled : ∀ u, lib.LeadsTo lookup t u → u.IsCompiled)
  {c : Call} (hc : c.Meets lib lookup t) {s u : RenderState} {i j : Record}

include hlib hcompiled hc

/-- Renders that see the same come to the same, unless one of them is cut off. -/
theorem run_sees {env other : Env} (h : lib.Sees lookup t env other)
    (hsu : s.Abreast cert lookup t u) :
    ((Call.run { c with env := env } s).1 = (Call.run { c with env := other } u).1 ∧
      (h.accord hlib hcompiled).States (Call.run { c with env := env } s).2
        (Call.run { c with env := other } u).2) ∨
      other.injected ≠ env.injected ∧ (Accord.Overruns (Call.run { c with env := env } s).1 ∨
        Accord.Overruns (Call.run { c with env := other } u).1) := by
  have hr : (h.accord hlib hcompiled).reach c.template := by
    rw [hc.template]
    exact .self
  have hst : (h.accord hlib hcompiled).States s u := by
    refine .of_same hsu.same ?_ ?_ hsu.reaches <;> change Library.Settles env.library _ <;>
      rw [h.library]
    · exact hsu.settles
    · exact hsu.settles'
  exact ((h.accord hlib hcompiled).run hr s u hst).imp (And.imp_left Paired.eq) id

theorem run_bounded_of_meets (hs : s.Abreast cert lookup t s) :
    ¬ Accord.Overruns (c.run s).1 ∧ (c.run s).2.SavesSound cert t := by
  have hsees : lib.Sees lookup t c.env { c.env with isAlive := fun _ => true } :=
    ⟨hc.library, hc.library, hc.lookup, hc.lookup, rfl, rfl,
      fun unit name h => ⟨hc.alive unit name h, rfl⟩, fun _ _ _ _ _ _ _ => rfl⟩
  obtain ⟨hr, hst⟩ | ⟨hne, -⟩ := run_sees hlib hcompiled hc hsees hs
  · have hsaved : s.SavesSound cert c.template := hc.template ▸ hs.sound
    have hfull := run_bounded (c := { c with env := { c.env with isAlive := fun _ => true } })
      hc.library (fun _ => rfl) hsaved
    change (c.run s).1 = _ at hr
    rw [hr]
    refine ⟨hfull.1, ?_⟩
    have hcells := hst.cells
    change _ = (c.run s).2.cells at hcells
    rw [RenderState.SavesSound, ← hcells, ← hc.template]
    exact hfull.2
  · exact absurd rfl hne

theorem run_indifferent (hij : lib.ReadsAlike lookup t i j) (hsu : s.Abreast cert lookup t u) :
    ((c.injecting i).run s).1 = ((c.injecting j).run u).1 ∧
      ((c.injecting i).run s).2.Abreast cert lookup t ((c.injecting j).run u).2 := by
  have hsees : lib.Sees lookup t { c.env with injected := i } { c.env with injected := j } :=
    ⟨hc.library, hc.library, hc.lookup, hc.lookup, rfl, rfl,
      fun unit name h => ⟨hc.alive unit name h, hc.alive unit name h⟩, hij⟩
  obtain ⟨hover, hsound⟩ := run_bounded_of_meets hlib hcompiled (hc.injecting i) hsu.left
  have hover' := (run_bounded_of_meets hlib hcompiled (hc.injecting j) hsu.right).1
  obtain ⟨hr, hst⟩ | ⟨-, h | h⟩ := run_sees hlib hcompiled hc hsees hsu
  · refine ⟨hr, hst.same, ?_, ?_, hst.saved, hsound⟩
    · exact hc.library ▸ hst.settles
    · exact hc.library ▸ hst.settles'
  · exact absurd h hover
  · exact absurd h hover'

omit hc in
theorem runAll_indifferent (hij : lib.ReadsAlike lookup t i j) {calls : List Call}
    (hcalls : ∀ c ∈ calls, c.Meets lib lookup t) (hsu : s.Abreast cert lookup t u) :
    (runAll (calls.map (·.injecting i)) s).1 = (runAll (calls.map (·.injecting j)) u).1 ∧
      (runAll (calls.map (·.injecting i)) s).2.Abreast cert lookup t
        (runAll (calls.map (·.injecting j)) u).2 := by
  induction calls generalizing s u with
  | nil => exact ⟨rfl, hsu⟩
  | cons c calls ih =>
    obtain ⟨hr, hrun⟩ := run_indifferent hlib hcompiled (hcalls c List.mem_cons_self) hij hsu
    obtain ⟨hrest, hstate⟩ := ih (fun d hd => hcalls d (List.mem_cons_of_mem _ hd)) hrun
    exact ⟨congrArg₂ List.cons hr hrest, hstate⟩

end Call

/-- Renders and resumes of a template return, write, look up and save the same for two injected records
that read the same wherever the metadata of the templates that it may lead to says, if all of these are
compiled and their units are there. -/
theorem Library.IsCompiled.indifferent {lib : Library} (hlib : lib.IsCompiled) {lookup : Lookup}
    {t : TemplateRef} (hcompiled : ∀ u, lib.LeadsTo lookup t u → u.IsCompiled) {i j : Record}
    (hij : lib.ReadsAlike lookup t i j) {calls : List Call}
    (hcalls : ∀ c ∈ calls, c.Meets lib lookup t) {s : RenderState} (hs : lib.Settles s.bindings)
    (hnone : ∀ f, some f ∉ s.cells) :
    let one := Call.runAll (calls.map (·.injecting i)) s
    let other := Call.runAll (calls.map (·.injecting j)) s
    one.1 = other.1 ∧ { one.2 with bindings := .empty } = { other.2 with bindings := .empty } := by
  intro one other
  obtain ⟨cert⟩ := hlib.certificate
  have hstart : s.Abreast cert lookup t s :=
    ⟨rfl, hs, hs, fun f hf => (hnone f hf).elim, fun f hf => (hnone f hf).elim⟩
  obtain ⟨hresults, hstates⟩ := Call.runAll_indifferent hlib hcompiled hij hcalls hstart
  refine ⟨hresults, ?_⟩
  rw [show other.2 = _ from hstates.same]

theorem Library.LeadsTo.of_none {lib : Library} {unit : Nat} {name : String} {u : TemplateRef}
    (h : lib.LeadsTo .none (.compiled unit name) u) : ∃ name', u = .compiled unit name' := by
  induction h with
  | self => exact ⟨name, rfl⟩
  | own _ _ _ _ ih =>
    obtain ⟨_, he⟩ := ih
    cases he
    exact ⟨_, rfl⟩
  | lookedUp _ _ _ _ hu | delegate _ _ _ hu => cases hu

theorem Library.readsAlike_of_none {lib : Library} {unit : Nat} {name : String} {i j : Record}
    {cu : CompiledUnit} (hu : lib.units[unit]? = some cu)
    (h : ∀ m ∈ cu.metadata, ∀ n ∈ m.injected, Record.read j n = Record.read i n) :
    lib.ReadsAlike .none (.compiled unit name) i j := by
  intro unit' name' m hleads hm
  obtain ⟨_, he⟩ := hleads.of_none
  cases he
  rw [Library.metadata?, hu] at hm
  exact h m (List.mem_of_find?_eq_some hm)

def TemplateFile.badge : TemplateFile :=
  ⟨"", [], [{ Template.empty "badge" with
    params := [.injected "name", .injected "theme"]
    body := [.text "I am ", .print (.var (.param "name"))] }]⟩

def CompiledTemplate.badge : CompiledTemplate :=
  ⟨"badge", false, .html,
    ⟨#[.text 0 .sink "I am ", .print 1 .sink (.slot 0)], #[⟨0, []⟩, ⟨1, []⟩],
      #[⟨"name", .unknown, .injected⟩, ⟨"theme", .unknown, .injected⟩],
      [⟨0, "name", true, none⟩, ⟨1, "theme", true, none⟩], []⟩, []⟩

def Library.badge : Library := ⟨#[.of [.badge] [.badge]], #[], []⟩

theorem Library.badge_isCompiled : badge.IsCompiled := by
  intro u hu
  obtain rfl : u = .of [.badge] [.badge] := by simpa [badge] using hu
  refine ⟨{}, [.badge], .empty, CompiledUnit.compile_single rfl ?_⟩
  rw [Template.compile_eq]
  rfl

/-- A badge that pauses writes the same for two records that differ in a parameter that it declares but
does not read. -/
theorem Library.IsCompiled.indifferent_badge :
    let page (source : Option Outcome) : Call := ⟨.plain .badge 1, .compiled 0 "badge", [], source⟩
    let calls := [page none, page (some (.suspended ⟨"badge", .sinkNotReady, 1, 0⟩))]
    let i : Record := [("name", .str "Ada"), ("theme", .str "dark")]
    let j : Record := [("name", .str "Ada"), ("theme", .str "light")]
    let s := RenderState.initial (.throttled (.of [0]))
    let one := Call.runAll (calls.map (·.injecting i)) s
    let other := Call.runAll (calls.map (·.injecting j)) s
    Library.badge.IsCompiled ∧ (∀ u, badge.LeadsTo .none (.compiled 0 "badge") u → u.IsCompiled) ∧
      badge.ReadsAlike .none (.compiled 0 "badge") i j ∧
      (∀ c ∈ calls, c.Meets .badge .none (.compiled 0 "badge")) ∧ badge.Settles s.bindings ∧
      (∀ f, some f ∉ s.cells) ∧ one.2.chunks = ["I am ", "Ada"] ∧ one.1 = other.1 ∧
      { one.2 with bindings := .empty } = { other.2 with bindings := .empty } := by
  intro page calls i j s one other
  have hcompiled : ∀ u, badge.LeadsTo .none (.compiled 0 "badge") u → u.IsCompiled := by
    intro u hu
    obtain ⟨_, rfl⟩ := hu.of_none
    trivial
  have hij : badge.ReadsAlike .none (.compiled 0 "badge") i j := by
    refine readsAlike_of_none rfl fun m hm n hn => ?_
    have hlisted : ∀ m ∈ (CompiledUnit.of [.badge] [.badge]).metadata, m.injected = ["name"] := by
      decide
    rw [hlisted m hm, List.mem_singleton] at hn
    subst hn
    rfl
  have hcalls : ∀ c ∈ calls, c.Meets .badge .none (.compiled 0 "badge") := by
    intro c hc
    simp only [calls, List.mem_cons, List.not_mem_nil, or_false] at hc
    obtain rfl | rfl := hc <;> exact ⟨rfl, rfl, rfl, fun _ _ _ => rfl⟩
  have hs : badge.Settles s.bindings := settles_empty _
  have hnone : ∀ f, some f ∉ s.cells := fun f hf => by simp [s, RenderState.initial] at hf
  have hwritten : one.2.chunks = ["I am ", "Ada"] := by decide +kernel
  have hsame := badge_isCompiled.indifferent hcompiled hij hcalls hs hnone
  clear_value calls i j s
  exact ⟨badge_isCompiled, hcompiled, hij, hcalls, hs, hnone, hwritten, hsame⟩

/-- Two records that read alike do not come to the same once the unit of a template is dropped: one of
them may keep a callee that was found before. -/
theorem Library.together_told_apart :
    let page (isAlive : Bool) : Call :=
      ⟨{ Env.plain .together 2 with isAlive := fun _ => isAlive }, .compiled 0 "page", [], none⟩
    let calls := [page true, page false]
    let i : Record := [("x", .template "greeting" (.compiled 0 "greeting"))]
    let s := RenderState.initial (.buffer "")
    let one := Call.runAll (calls.map (·.injecting i)) s
    let other := Call.runAll (calls.map (·.injecting [])) s
    Library.together.IsCompiled ∧
      (∀ u, together.LeadsTo .none (.compiled 0 "page") u → u.IsCompiled) ∧
      together.ReadsAlike .none (.compiled 0 "page") i [] ∧ together.Settles s.bindings ∧
      (∀ f, some f ∉ s.cells) ∧ one.2.chunks = ["dear ", "hi", "dear ", "hi"] ∧
      other.2.chunks = ["dear ", "hi", "dear "] ∧ one.1 ≠ other.1 := by
  intro page calls i s one other
  have hcompiled : ∀ u, together.LeadsTo .none (.compiled 0 "page") u → u.IsCompiled := by
    intro u hu
    obtain ⟨_, rfl⟩ := hu.of_none
    trivial
  have hij : together.ReadsAlike .none (.compiled 0 "page") i [] := by
    refine readsAlike_of_none rfl fun m hm n hn => ?_
    have hlisted : ∀ m ∈ (CompiledUnit.of [.page, .greeting] [.page, .greeting]).metadata,
        m.injected = [] := by decide
    rw [hlisted m hm] at hn
    cases hn
  have hnone : ∀ f, some f ∉ s.cells := fun f hf => by simp [s, RenderState.initial] at hf
  have hkept : one.2.chunks = ["dear ", "hi", "dear ", "hi"] := by decide +kernel
  have hlost : other.2.chunks = ["dear ", "hi", "dear "] := by decide +kernel
  have hdone : one.1.map Except.toOption = [some .done, some .done] := by decide +kernel
  have hfailed : other.1.map Except.toOption = [some .done, none] := by decide +kernel
  refine ⟨together_divides.isCompiled, hcompiled, hij, settles_empty _, hnone, hkept, hlost, ?_⟩
  intro h
  rw [h, hfailed] at hdone
  cases hdone

end ResumableTemplates
