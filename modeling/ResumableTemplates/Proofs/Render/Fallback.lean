import ResumableTemplates.Proofs.Compile.Division
import ResumableTemplates.Proofs.Render.Lockstep

/-! Renders of divided templates. Which templates are compiled together decides what a site finds in
its own unit and what it has to ask the registry for. Main statement: nothing else depends on it. -/
namespace ResumableTemplates

theorem Library.Divides.found_eq {joins : Bool} {parts : List (List TemplateFile)} {l : Library}
    (h : l.Divides joins parts) (hnames : ((Part.union parts).map (·.name)).Nodup) {env : Env}
    (hlib : env.library = l) (hlookup : env.lookup = .registry l) (unit : Nat) {name : String} :
    env.found unit name = l.registered? name := by
  unfold Env.found
  rw [hlib, hlookup]
  split
  · rename_i hsome
    obtain ⟨c, hc⟩ := Option.isSome_iff_exists.1 hsome
    obtain ⟨t, ht, hname, -⟩ := (h.compiled?_iff hnames).1 hc
    exact ((h.registered?_iff hnames).2 ⟨unit, t, ht, hname, rfl⟩).symm
  · rfl

section Divisions

variable {joins : Bool} {parts parts' : List (List TemplateFile)} {l m : Library}
  (hts : Template.Separable (Part.union parts))
  (hperm : (Part.union parts).Perm (Part.union parts'))
  (hl : l.Divides joins parts) (hm : m.Divides joins parts')

theorem Option.rel_of_iff {R : α → β → Prop} {x : Option α} {y : Option β}
    (hx : ∀ a, x = some a → ∃ b, y = some b ∧ R a b) (hy : ∀ b, y = some b → ∃ a, x = some a) :
    Option.Rel R x y := by
  cases x with
  | none =>
    cases y with
    | none => exact .none
    | some b =>
      obtain ⟨a, ha⟩ := hy b rfl
      cases ha
  | some a =>
    obtain ⟨b, rfl, h⟩ := hx a rfl
    exact .some h

include hts hperm hl hm

theorem Library.Divides.twin {i j : Nat} {t : Template} (ht : Part parts i t)
    (ht' : Part parts' j t) : TemplateRef.Twin l m (.compiled i t.name) (.compiled j t.name) := by
  obtain ⟨c, hc⟩ := hl.exists_compiled ht
  exact .mk ((hl.compiled?_iff hts.names).2 ⟨t, ht, rfl, hc⟩)
    ((hm.compiled?_iff (hts.perm hperm).names).2 ⟨t, ht', rfl, hc⟩)

theorem Library.Divides.registered_twin (name : String) :
    Option.Rel (TemplateRef.Twin l m) (l.registered? name) (m.registered? name) := by
  have hts' := hts.perm hperm
  refine Option.rel_of_iff (fun r hr => ?_) fun r hr => ?_
  · obtain ⟨i, t, ht, rfl, rfl⟩ := (hl.registered?_iff hts.names).1 hr
    obtain ⟨j, ht'⟩ := Part.exists_of_mem (hperm.mem_iff.1 ht.mem_union)
    exact ⟨_, (hm.registered?_iff hts'.names).2 ⟨j, t, ht', rfl, rfl⟩, hl.twin hts hperm hm ht ht'⟩
  · obtain ⟨i, t, ht, rfl, rfl⟩ := (hm.registered?_iff hts'.names).1 hr
    obtain ⟨j, ht'⟩ := Part.exists_of_mem (hperm.mem_iff.2 ht.mem_union)
    exact ⟨_, (hl.registered?_iff hts.names).2 ⟨j, t, ht', rfl, rfl⟩⟩

theorem Library.Divides.variant_twin {name : String} (hname : name ≠ "") (variant : String) :
    Option.Rel (TemplateRef.Twin l m) (l.registeredVariant? name variant)
      (m.registeredVariant? name variant) := by
  have hts' := hts.perm hperm
  refine Option.rel_of_iff (fun r hr => ?_) fun r hr => ?_
  · obtain ⟨i, t, ht, himpl, rfl⟩ := (hl.registeredVariant?_iff hts hname).1 hr
    obtain ⟨j, ht'⟩ := Part.exists_of_mem (hperm.mem_iff.1 ht.mem_union)
    exact ⟨_, (hm.registeredVariant?_iff hts' hname).2 ⟨j, t, ht', himpl, rfl⟩,
      hl.twin hts hperm hm ht ht'⟩
  · obtain ⟨i, t, ht, himpl, rfl⟩ := (hm.registeredVariant?_iff hts' hname).1 hr
    obtain ⟨j, ht'⟩ := Part.exists_of_mem (hperm.mem_iff.2 ht.mem_union)
    exact ⟨_, (hl.registeredVariant?_iff hts hname).2 ⟨j, t, ht', himpl, rfl⟩⟩

omit hm hperm in
theorem Library.Divides.portable : l.Portable := by
  intro i name c hc
  obtain ⟨t, ht, -, htc⟩ := (hl.compiled?_iff hts.names).1 hc
  exact (hts.portable t ht.mem_union).compiled htc

end Divisions

/-- A turn of a session: a render of a template, or a resume of it from an outcome. -/
structure Turn where
  template : String
  params : Record
  injected : Record
  source : Option Outcome
  maxDepth : Nat
  isReady : (provider asked : Nat) → Bool

structure Turn.Same (q r : Turn) : Prop where
  template : q.template = r.template
  params : Record.Same q.params r.params
  injected : Record.Same q.injected r.injected
  source : q.source = r.source
  maxDepth : q.maxDepth = r.maxDepth
  isReady : q.isReady = r.isReady

namespace Turn

def env (q : Turn) (l : Library) : Env where
  library := l
  lookup := .registry l
  maxDepth := q.maxDepth
  injected := q.injected
  isReady := q.isReady
  isAlive _ := true
  isHeld _ := false

def run (l : Library) (q : Turn) : Render Outcome :=
  match l.registered? q.template with
  | none => Render.fail (.templateNotFound q.template)
  | some t => Call.run ⟨q.env l, t, q.params, q.source⟩

def runAll (l : Library) : List Turn → RenderState → List (Except Stop Outcome) × RenderState
  | [], s => ([], s)
  | q :: qs, s =>
    let (r, t) := q.run l s
    let (rs, u) := runAll l qs t
    (r :: rs, u)

end Turn

namespace Template.Separable

variable {joins : Bool} {parts parts' : List (List TemplateFile)} {l m : Library}
  (hts : Separable (Part.union parts)) (hperm : (Part.union parts).Perm (Part.union parts'))
  (hl : l.Divides joins parts) (hm : m.Divides joins parts')

include hts hperm hl hm

theorem env_twin {q r : Turn} (h : q.Same r) : Env.Twin l m (q.env l) (r.env m) where
  library := rfl
  library' := rfl
  maxDepth := h.maxDepth
  injected := h.injected
  isReady := h.isReady
  alive _ := rfl
  alive' _ := rfl
  template i j _ _ other _ _ := by
    rw [hl.found_eq hts.names rfl rfl, hm.found_eq (hts.perm hperm).names rfl rfl]
    exact hl.registered_twin hts hperm hm other
  delegate name variant hname := by
    have hexact := hl.variant_twin hts hperm hm hname variant
    have hdefault := hl.variant_twin hts hperm hm hname ""
    simp only [Lookup.registry, Turn.env, Library.registeredDelegate?]
    generalize l.registeredVariant? name variant = x, m.registeredVariant? name variant = y
      at hexact
    cases hexact with
    | none => exact hdefault
    | some h => exact .some h

theorem run_twin {q r : Turn} (h : q.Same r) :
    Render.Twin l m Eq (q.run l) (r.run m) := by
  have hef := hts.env_twin hperm hl hm h
  have hfound := hl.registered_twin hts hperm hm q.template
  unfold Turn.run
  rw [← h.template]
  generalize l.registered? q.template = x, m.registered? q.template = y at hfound
  cases hfound with
  | none => exact .fail _
  | some htu =>
    simp only [Call.run, ← h.source]
    cases q.source with
    | none => exact Render.start_twin hef (hl.portable hts) htu h.params
    | some o => exact Render.resume_twin hef (hl.portable hts) htu h.params o

theorem runAll_twin {qs rs : List Turn} (h : List.Forall₂ Turn.Same qs rs) {s t : RenderState}
    (hst : RenderState.Twin l m s t) : (Turn.runAll l qs s).1 = (Turn.runAll m rs t).1 ∧
      RenderState.Twin l m (Turn.runAll l qs s).2 (Turn.runAll m rs t).2 := by
  induction h generalizing s t with
  | nil => exact ⟨rfl, hst⟩
  | cons hqr _ ih =>
    obtain ⟨hresult, hst⟩ := hts.run_twin hperm hl hm hqr s t hst
    obtain ⟨hresults, hst⟩ := ih hst
    exact ⟨congrArg₂ List.cons hresult.eq hresults, hst⟩

/-- However templates are divided into units, and in whatever order these are loaded, a session comes
to the same results and writes the same chunks; in particular it does so if all are one unit. -/
theorem transparent {qs rs : List Turn} (h : List.Forall₂ Turn.Same qs rs) {s : RenderState}
    (hbindings : s.bindings = .empty) (hcells : s.cells = #[]) :
    (Turn.runAll l qs s).1 = (Turn.runAll m rs s).1 ∧
      (Turn.runAll l qs s).2.chunks = (Turn.runAll m rs s).2.chunks := by
  have hstart : RenderState.Twin l m s s := by
    refine ⟨rfl, rfl, rfl, rfl, rfl, rfl, ?_, ?_, ?_⟩
    · rw [hcells]
      exact .nil
    · intro site name b _ hb
      rw [hbindings] at hb
      cases hb
    · intro site name b _ hb
      rw [hbindings] at hb
      cases hb
  obtain ⟨hresults, hst⟩ := hts.runAll_twin hperm hl hm h hstart
  exact ⟨hresults, by rw [RenderState.chunks_eq, RenderState.chunks_eq, hst.sinkCalls]⟩

end Template.Separable

def TemplateFile.greeting : TemplateFile :=
  ⟨"", [], [{ Template.empty "greeting" with body := [.text "hi"] }]⟩

def TemplateFile.page : TemplateFile :=
  ⟨"", [], [{ Template.empty "page" with
    body := [.text "dear ", .call (.template "greeting") .none []] }]⟩

def CompiledTemplate.greeting : CompiledTemplate :=
  ⟨"greeting", false, .html, ⟨#[.text 0 .sink "hi"], #[⟨0, []⟩], #[], [], []⟩, []⟩

def CompiledTemplate.page : CompiledTemplate :=
  ⟨"page", false, .html,
    ⟨#[.text 0 .sink "dear ", .call 1 .sink (.template 0 "greeting") .none []],
      #[⟨0, []⟩, ⟨1, []⟩], #[], [], []⟩, [(0, "greeting")]⟩

def CompiledUnit.of (files : List TemplateFile) (ts : List CompiledTemplate) : CompiledUnit :=
  ⟨ts, (TemplateFile.templatesOf files).map fun s => .of s.1 s.2, .empty⟩

theorem CompiledTemplate.page_compiled {t : Template} (ht : TemplateFile.page.templates = [t]) :
    t.compile true = .ok page := by
  cases ht
  rw [Template.compile_eq]
  rfl

theorem CompiledTemplate.greeting_compiled {t : Template}
    (ht : TemplateFile.greeting.templates = [t]) : t.compile true = .ok greeting := by
  cases ht
  rw [Template.compile_eq]
  rfl

theorem CompiledUnit.page_compiled : compile {} [.page] .empty = .ok (.of [.page] [.page]) :=
  compile_single rfl (CompiledTemplate.page_compiled rfl)

theorem CompiledUnit.greeting_compiled :
    compile {} [.greeting] .empty = .ok (.of [.greeting] [.greeting]) :=
  compile_single rfl (CompiledTemplate.greeting_compiled rfl)

def Library.apart : Library :=
  ⟨#[.of [.page] [.page], .of [.greeting] [.greeting]], #[], [1, 0]⟩

def Library.together : Library := ⟨#[.of [.page, .greeting] [.page, .greeting]], #[], [0]⟩

theorem Library.apart_divides : apart.Divides true [[.page], [.greeting]] where
  size := rfl
  units i files u hfiles hu := by
    cases i with
    | zero =>
      cases hfiles
      cases hu
      exact ⟨.empty, CompiledUnit.page_compiled⟩
    | succ i =>
      cases i with
      | zero =>
        cases hfiles
        cases hu
        exact ⟨.empty, CompiledUnit.greeting_compiled⟩
      | succ i => cases hfiles
  loaded i hi := by
    obtain rfl | rfl : i = 0 ∨ i = 1 := by
      simp only [List.length_cons, List.length_nil] at hi
      omega
    · decide
    · decide

theorem CompiledUnit.together_compiled :
    compile {} [.page, .greeting] .empty = .ok (.of [.page, .greeting] [.page, .greeting]) := by
  obtain ⟨p, hp⟩ : ∃ p, TemplateFile.page.templates = [p] := ⟨_, rfl⟩
  obtain ⟨g, hg⟩ : ∃ g, TemplateFile.greeting.templates = [g] := ⟨_, rfl⟩
  simp only [compile, compileAll, of, TemplateFile.templatesOf, List.flatMap_cons, List.flatMap_nil,
    hp, hg, List.map_cons, List.map_nil, List.cons_append, List.append_nil,
    CompiledTemplate.page_compiled hp]
  cases hp
  cases hg
  rfl

theorem Library.together_divides : together.Divides true [[.page, .greeting]] where
  size := rfl
  units i files u hfiles hu := by
    cases i with
    | zero =>
      cases hfiles
      cases hu
      exact ⟨.empty, CompiledUnit.together_compiled⟩
    | succ i => cases hfiles
  loaded i hi := by
    obtain rfl : i = 0 := Nat.lt_one_iff.1 hi
    decide

theorem TemplateFile.page_separable :
    Template.Separable (Part.union [[.page], [.greeting]]) where
  names := by decide
  variants := by
    simp [Part.union, declared, page, greeting, Template.Implements, Template.empty]
  portable t ht := by
    obtain rfl | rfl : t = { Template.empty "page" with
        body := [.text "dear ", .call (.template "greeting") .none []] } ∨
        t = { Template.empty "greeting" with body := [.text "hi"] } := by
      simpa [Part.union, declared, page, greeting] using ht
    · constructor <;> simp [Template.visits, Template.empty, Node.visitsAll, Node.visits,
        CallTarget.visits, CallData.visits, Node.visitsArgs]
    · constructor <;> simp [Template.visits, Template.empty, Node.visitsAll, Node.visits]

/-- A page that calls a greeting, and pauses in it, comes to the same whether both are one unit or
two. -/
theorem Template.Separable.transparent_page :
    let render : Turn := ⟨"page", [], [], none, 2, fun _ _ => true⟩
    let paused : ResumeState := ⟨"page", .sinkNotReady, 2, 0⟩
    let turns := [render, { render with source := some (.suspended paused) }]
    let s := RenderState.initial (.throttled (.of [0]))
    Template.Separable (Part.union [[.page], [.greeting]]) ∧
      Library.apart.Divides true [[.page], [.greeting]] ∧
      Library.together.Divides true [[.page, .greeting]] ∧
      (Turn.runAll .together turns s).2.chunks = ["dear ", "hi"] ∧
      (Turn.runAll .apart turns s).1 = (Turn.runAll .together turns s).1 ∧
      (Turn.runAll .apart turns s).2.chunks = ["dear ", "hi"] := by
  intro render paused turns s
  have hperm : (Part.union [[TemplateFile.page], [.greeting]]).Perm
      (Part.union [[TemplateFile.page, .greeting]]) := .refl _
  have hsame : ∀ q ∈ turns, Turn.Same q q := fun q _ => ⟨rfl, rfl, rfl, rfl, rfl, rfl⟩
  obtain ⟨hresults, hchunks⟩ := transparent TemplateFile.page_separable hperm
    Library.apart_divides Library.together_divides (List.forall₂_same.2 hsame) (s := s) rfl rfl
  have hwritten : (Turn.runAll .together turns s).2.chunks = ["dear ", "hi"] := by
    decide +kernel
  exact ⟨TemplateFile.page_separable, Library.apart_divides, Library.together_divides, hwritten,
    hresults, hchunks.trans hwritten⟩

end ResumableTemplates
