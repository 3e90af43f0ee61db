import ResumableTemplates.Proofs.Compile.Division
import ResumableTemplates.Proofs.Render.Dependencies
import ResumableTemplates.Workspace.Basic

/-! Units and the registry. Under each name a unit has either a template with the metadata of the
template's source, or neither. The registry answers from the latest unit that has an answer, and each of
its lookups has a notion of its own of what an answer is. -/
namespace ResumableTemplates

def Template.Carries (t : Template) (name variant : String) : Prop :=
  (DelegateMetadata.of t.delegate).name = name ∧ (DelegateMetadata.of t.delegate).variant = variant

instance (t : Template) (name variant : String) : Decidable (t.Carries name variant) :=
  inferInstanceAs (Decidable (_ ∧ _))

theorem Template.carries_iff {t : Template} {name variant : String} : t.Carries name variant ↔
    t.Implements name variant ∨ t.delegate = none ∧ name = "" ∧ variant = "" := by
  unfold Carries Implements
  cases t.delegate with
  | none => simp [DelegateMetadata.of, eq_comm]
  | some d => simp [DelegateMetadata.of]

structure UnitSource where
  options : CompileOptions
  files : List TemplateFile
  tables : Table String ElementTable

namespace UnitSource

def compile (s : UnitSource) : Except CompileError CompiledUnit :=
  CompiledUnit.compile s.options s.files s.tables

def templates (s : UnitSource) : List (TemplateFile × Template) := TemplateFile.templatesOf s.files

def Declares (s : UnitSource) (name : String) : Prop := ∃ d ∈ s.templates, d.2.name = name

def Tells (s : UnitSource) (table : String) (id : UInt64) (text : String) : Prop :=
  ∃ entries, s.tables.find? table = some entries ∧ entries.find? id = some text

/-- Holds of the template that is the first with a property, and of its file. -/
def First (s : UnitSource) (p : Template → Prop) (f : TemplateFile) (t : Template) : Prop :=
  p t ∧ ∃ before after, s.templates = before ++ (f, t) :: after ∧ ∀ d ∈ before, ¬ p d.2

theorem First.mem {s : UnitSource} {p : Template → Prop} {f : TemplateFile} {t : Template}
    (h : s.First p f t) : (f, t) ∈ s.templates := by
  obtain ⟨-, before, after, hsplit, -⟩ := h
  exact hsplit ▸ List.mem_append_right _ List.mem_cons_self

end UnitSource

namespace CompiledUnit

inductive Has (u : CompiledUnit) (s : UnitSource) (name : String) : Prop
  | neither (undeclared : ¬ s.Declares name) (template : u.template? name = none)
      (metadata : u.metadata? name = none)
  | both {f : TemplateFile} {t : Template} {c : CompiledTemplate}
      (declared : (f, t) ∈ s.templates) (named : t.name = name)
      (compiled : t.compile s.options.joins = .ok c) (template : u.template? name = some c)
      (metadata : u.metadata? name = some (.of f t))

/-- Holds of units that have each template of their source once, in the order of its declaration. -/
structure Coherent (u : CompiledUnit) (s : UnitSource) : Prop where
  listed : u.metadata = s.templates.map fun d => .of d.1 d.2
  once : (s.templates.map (·.2.name)).Nodup
  has : ∀ name, u.Has s name
  tables : u.tables = s.tables

theorem metadata_of_compiles {joins : Bool} {sources : List (TemplateFile × Template)}
    {cs : List (CompiledTemplate × Metadata)} (h : List.Forall₂ (Compiles joins) sources cs) :
    cs.map (·.2) = sources.map fun d => .of d.1 d.2 := by
  induction h with
  | nil => rfl
  | cons hd _ ih => rw [List.map_cons, List.map_cons, ih, hd.2]

theorem coherent_of_compile {u : CompiledUnit} {s : UnitSource} (h : s.compile = .ok u) :
    u.Coherent s := by
  obtain ⟨cs, hcs, hu⟩ := Except.bind_ok_iff.1 h
  cases hu
  have hcompiles := compileAll_ok hcs
  have hnames : (s.templates.map (·.2.name)).Nodup := (names_nodup_of_compileAll hcs).1
  refine ⟨metadata_of_compiles hcompiles, hnames, fun name => ?_, rfl⟩
  by_cases hdeclared : s.Declares name
  · obtain ⟨⟨f, t⟩, hd, rfl⟩ := hdeclared
    obtain ⟨c, hok, hc, hm⟩ := find_compiled hcompiles hnames hd
    exact .both hd rfl hok hc hm
  · refine .neither hdeclared ?_ (List.find?_eq_none.2 fun m hm => ?_)
    · refine Option.eq_none_iff_forall_ne_some.2 fun c hc => hdeclared ?_
      obtain ⟨f, hf, t, ht, hok⟩ := source_of_template? h hc
      have hname : c.name = name := by simpa using List.find?_some hc
      exact ⟨(f, t), List.mem_flatMap.2 ⟨f, hf, List.mem_map_of_mem ht⟩,
        (Template.compile_ok hok).1.symm.trans hname⟩
    · rw [metadata_of_compiles hcompiles] at hm
      obtain ⟨d, hd, rfl⟩ := List.mem_map.1 hm
      rw [decide_eq_true_eq]
      exact fun hname => hdeclared ⟨d, hd, hname⟩

section Coherent

variable {u : CompiledUnit} {s : UnitSource} {name variant table text : String} {id : UInt64}

theorem Coherent.template?_ne_none (h : u.Coherent s) :
    u.template? name ≠ none ↔ s.Declares name := by
  cases h.has name with
  | neither hundeclared htemplate _ => simp [htemplate, hundeclared]
  | both hdeclared hname _ htemplate _ =>
    rw [htemplate]
    exact ⟨fun _ => ⟨_, hdeclared, hname⟩, fun _ h => by cases h⟩

theorem Coherent.metadata?_ne_none (h : u.Coherent s) :
    u.metadata? name ≠ none ↔ s.Declares name := by
  cases h.has name with
  | neither hundeclared _ hmetadata => simp [hmetadata, hundeclared]
  | both hdeclared hname _ _ hmetadata =>
    rw [hmetadata]
    exact ⟨fun _ => ⟨_, hdeclared, hname⟩, fun _ h => by cases h⟩

theorem Coherent.element?_eq_some (h : u.Coherent s) :
    u.element? table id = some text ↔ s.Tells table id text := by
  rw [element?, h.tables, Option.bind_eq_some_iff]
  rfl

theorem Coherent.delegate?_eq (h : u.Coherent s) : u.delegate? name variant =
    (s.templates.find? fun d => d.2.Carries name variant).map (·.2.name) := by
  rw [delegate?, h.listed, List.find?_map, Option.map_map]
  refine congrArg (fun p => (s.templates.find? p).map (·.2.name)) (funext fun d => ?_)
  rw [Bool.eq_iff_iff, Function.comp_apply, Bool.and_eq_true, decide_eq_true_eq, decide_eq_true_eq,
    decide_eq_true_eq]
  rfl

theorem Coherent.delegate?_ne_none (h : u.Coherent s) :
    u.delegate? name variant ≠ none ↔ ∃ d ∈ s.templates, d.2.Carries name variant := by
  rw [h.delegate?_eq, ne_eq, Option.map_eq_none_iff, List.find?_eq_none]
  simp

theorem Coherent.exists_first (h : u.Coherent s)
    (hd : ∃ d ∈ s.templates, d.2.Carries name variant) : ∃ f t,
      s.First (·.Carries name variant) f t ∧ u.delegate? name variant = some t.name := by
  have hsome := h.delegate?_ne_none.2 hd
  rw [h.delegate?_eq, ne_eq, Option.map_eq_none_iff] at hsome
  obtain ⟨⟨f, t⟩, hfind⟩ := Option.ne_none_iff_exists'.1 hsome
  obtain ⟨ht, before, after, hsplit, hbefore⟩ := List.find?_eq_some_iff_append.1 hfind
  refine ⟨f, t, ⟨of_decide_eq_true ht, before, after, hsplit, fun d hd => ?_⟩, ?_⟩
  · simpa using hbefore d hd
  · rw [h.delegate?_eq, hfind]
    rfl

end Coherent

end CompiledUnit

structure Latest (loads : List Nat) (p : Nat → Prop) (i : Nat) : Prop where
  holds : p i
  last : ∃ before after, loads = before ++ i :: after ∧ ∀ j ∈ after, ¬ p j

theorem Latest.mem {loads : List Nat} {p : Nat → Prop} {i : Nat} (h : Latest loads p i) :
    i ∈ loads := by
  obtain ⟨before, after, rfl, -⟩ := h.last
  exact List.mem_append_right _ List.mem_cons_self

theorem Latest.exists_or (loads : List Nat) (p : Nat → Prop) :
    (∃ i, Latest loads p i) ∨ ∀ i ∈ loads, ¬ p i := by
  induction loads with
  | nil => exact .inr fun i hi => by cases hi
  | cons i loads ih =>
    obtain ⟨j, hj, before, after, hsplit, hafter⟩ | hnone := ih
    · exact .inl ⟨j, hj, i :: before, after, congrArg _ hsplit, hafter⟩
    · by_cases hi : p i
      · exact .inl ⟨i, hi, [], loads, rfl, hnone⟩
      · exact .inr (List.forall_mem_cons.2 ⟨hi, hnone⟩)

/-- Holds of libraries whose units are compiled from sources, with a registry that got some loads. -/
structure Library.Loaded (l : Library) (source : Nat → UnitSource) (loads : List Nat) : Prop where
  units : ∀ i u, l.units[i]? = some u → (source i).compile = .ok u
  loaded : l.loaded = loads.reverse
  there : ∀ i ∈ loads, i < l.units.size

namespace Library

/-- What a registry has under a name: the template and the metadata of the latest unit that declares
it, or neither. -/
inductive Registers (l : Library) (source : Nat → UnitSource) (loads : List Nat) (name : String) : Prop
  | neither (undeclared : ∀ i ∈ loads, ¬ (source i).Declares name)
      (template : l.registered? name = none) (lookup : (Lookup.registry l).template? name = none)
      (metadata : l.registeredMetadata? name = none)
  | both {i : Nat} {f : TemplateFile} {t : Template} {c : CompiledTemplate}
      (latest : Latest loads (fun i => (source i).Declares name) i)
      (declared : (f, t) ∈ (source i).templates) (named : t.name = name)
      (compiled : t.compile (source i).options.joins = .ok c) (there : l.compiled? i name = some c)
      (template : l.registered? name = some (.compiled i name))
      (lookup : (Lookup.registry l).template? name = some (.compiled i name))
      (metadata : l.registeredMetadata? name = some (.of f t))

/-- What a registry tells of an element: the text in the latest unit that tells one. -/
inductive Describes (l : Library) (source : Nat → UnitSource) (loads : List Nat) (table : String)
    (id : UInt64) : Prop
  | nothing (untold : ∀ i ∈ loads, ¬ ∃ text, (source i).Tells table id text)
      (lookup : (Lookup.registry l).element? table id = none)
  | entry {i : Nat} {text : String}
      (latest : Latest loads (fun i => ∃ text, (source i).Tells table id text) i)
      (told : (source i).Tells table id text)
      (lookup : (Lookup.registry l).element? table id = some text)

/-- What the registry selects for exactly a variant of a delegate: the first template that carries it in
the latest unit that has one. -/
inductive Selects (l : Library) (source : Nat → UnitSource) (loads : List Nat) (name variant : String) :
    Option TemplateRef → Prop
  | nothing (missing : ∀ i ∈ loads, ¬ ∃ d ∈ (source i).templates, d.2.Carries name variant) :
      Selects l source loads name variant none
  | first {i : Nat} {f : TemplateFile} {t : Template} {c : CompiledTemplate}
      (latest : Latest loads (fun i => ∃ d ∈ (source i).templates, d.2.Carries name variant) i)
      (first : (source i).First (·.Carries name variant) f t)
      (compiled : t.compile (source i).options.joins = .ok c) (there : l.compiled? i t.name = some c) :
      Selects l source loads name variant (some (.compiled i t.name))

namespace Loaded

variable {l : Library} {source : Nat → UnitSource} {loads : List Nat} (h : l.Loaded source loads)

include h

theorem coherent {i : Nat} {u : CompiledUnit} (hu : l.units[i]? = some u) : u.Coherent (source i) :=
  CompiledUnit.coherent_of_compile (h.units i u hu)

theorem exists_unit {i : Nat} (hi : i ∈ loads) :
    ∃ u, l.units[i]? = some u ∧ u.Coherent (source i) :=
  have hu := Array.getElem?_eq_getElem (h.there i hi)
  ⟨_, hu, h.coherent hu⟩

section Search

variable {p : Nat → Prop} {f : Nat → CompiledUnit → Option α}
  (hp : ∀ i u, u.Coherent (source i) → (f i u ≠ none ↔ p i))

include hp

theorem answer_none {i : Nat} (hi : i ∈ loads) (hpi : ¬ p i) : (l.units[i]?).bind (f i) = none := by
  obtain ⟨u, hu, hcoherent⟩ := h.exists_unit hi
  rw [hu]
  exact Classical.not_not.1 fun ha => hpi ((hp i u hcoherent).1 ha)

/-- The registry answers from the latest unit that has an answer. -/
theorem firstLoaded?_latest {i : Nat} {u : CompiledUnit} (hi : Latest loads p i)
    (hu : l.units[i]? = some u) : l.firstLoaded? f = f i u := by
  obtain ⟨before, after, hsplit, hafter⟩ := hi.last
  have hlater : after.reverse.findSome? (fun i => (l.units[i]?).bind (f i)) = none := by
    refine List.findSome?_eq_none_iff.2 fun j hj => ?_
    have hj := List.mem_reverse.1 hj
    exact h.answer_none hp (hsplit ▸ List.mem_append_right _ (List.mem_cons_of_mem _ hj))
      (hafter j hj)
  obtain ⟨a, ha⟩ := Option.ne_none_iff_exists'.1 ((hp i u (h.coherent hu)).2 hi.holds)
  rw [Library.firstLoaded?, h.loaded, hsplit, List.reverse_append, List.reverse_cons,
    List.append_assoc, List.findSome?_append, hlater, Option.none_or, List.singleton_append,
    List.findSome?_cons_of_isSome, hu]
  · rfl
  · rw [hu, Option.bind_some, ha]
    rfl

theorem firstLoaded?_none (hnone : ∀ i ∈ loads, ¬ p i) : l.firstLoaded? f = none := by
  rw [Library.firstLoaded?, h.loaded]
  refine List.findSome?_eq_none_iff.2 fun i hi => ?_
  have hi := List.mem_reverse.1 hi
  exact h.answer_none hp hi (hnone i hi)

end Search

theorem registers (name : String) : l.Registers source loads name := by
  have htemplate : ∀ (i : Nat) (u : CompiledUnit), u.Coherent (source i) →
      (((u.template? name).map fun _ => TemplateRef.compiled i name) ≠ none ↔
        (source i).Declares name) := fun i u hu => by
    rw [ne_eq, Option.map_eq_none_iff]
    exact hu.template?_ne_none
  obtain ⟨i, hi⟩ | hnone := Latest.exists_or loads fun i => (source i).Declares name
  · obtain ⟨u, hu, hcoherent⟩ := h.exists_unit hi.mem
    cases hcoherent.has name with
    | neither hundeclared _ _ => exact absurd hi.holds hundeclared
    | both hdeclared hname hok hc hm =>
      have hregistered : l.registered? name = some (.compiled i name) := by
        rw [registered?, h.firstLoaded?_latest htemplate hi hu, hc]
        rfl
      refine .both hi hdeclared hname hok (Option.bind_eq_some_iff.2 ⟨u, hu, hc⟩) hregistered
        hregistered ?_
      exact (h.firstLoaded?_latest (fun i u hu => hu.metadata?_ne_none) hi hu).trans hm
  · have hregistered := h.firstLoaded?_none htemplate hnone
    exact .neither hnone hregistered hregistered
      (h.firstLoaded?_none (fun i u hu => hu.metadata?_ne_none) hnone)

theorem describes (table : String) (id : UInt64) : l.Describes source loads table id := by
  have helement : ∀ (i : Nat) (u : CompiledUnit), u.Coherent (source i) →
      (u.element? table id ≠ none ↔ ∃ text, (source i).Tells table id text) := fun i u hu => by
    simp only [Option.ne_none_iff_exists', hu.element?_eq_some]
  obtain ⟨i, hi⟩ | hnone := Latest.exists_or loads fun i => ∃ text, (source i).Tells table id text
  · obtain ⟨u, hu, hcoherent⟩ := h.exists_unit hi.mem
    obtain ⟨text, htext⟩ := hi.holds
    exact .entry hi htext ((h.firstLoaded?_latest helement hi hu).trans
      (hcoherent.element?_eq_some.2 htext))
  · exact .nothing hnone (h.firstLoaded?_none helement hnone)

theorem selects (name variant : String) :
    l.Selects source loads name variant (l.registeredVariant? name variant) := by
  have hvariant : ∀ (i : Nat) (u : CompiledUnit), u.Coherent (source i) →
      ((u.delegate? name variant).map (TemplateRef.compiled i) ≠ none ↔
        ∃ d ∈ (source i).templates, d.2.Carries name variant) := fun i u hu => by
    rw [ne_eq, Option.map_eq_none_iff]
    exact hu.delegate?_ne_none
  obtain ⟨i, hi⟩ | hnone :=
    Latest.exists_or loads fun i => ∃ d ∈ (source i).templates, d.2.Carries name variant
  · obtain ⟨u, hu, hcoherent⟩ := h.exists_unit hi.mem
    obtain ⟨f, t, hfirst, hname⟩ := hcoherent.exists_first hi.holds
    rw [registeredVariant?, h.firstLoaded?_latest hvariant hi hu, hname]
    cases hcoherent.has t.name with
    | neither hundeclared _ _ => exact absurd ⟨_, hfirst.mem, rfl⟩ hundeclared
    | both hdeclared hsame hok hc _ =>
      cases List.inj_on_of_nodup_map hcoherent.once hdeclared hfirst.mem hsame
      exact .first hi hfirst hok (Option.bind_eq_some_iff.2 ⟨u, hu, hc⟩)
  · rw [registeredVariant?, h.firstLoaded?_none hvariant hnone]
    exact .nothing hnone

end Loaded

end Library

def Workspace.loadAll (w : Workspace) (loads : List Nat) : Workspace := loads.foldl load w

theorem Workspace.loadAll_library (w : Workspace) (loads : List Nat) :
    (w.loadAll loads).library =
      { w.library with loaded := loads.reverse ++ w.library.loaded } := by
  induction loads generalizing w with
  | nil => rfl
  | cons i loads ih =>
    rw [loadAll, List.foldl_cons, ← loadAll, ih, load]
    simp

theorem Workspace.loadAll_loaded {w : Workspace} {source : Nat → UnitSource} {loads : List Nat}
    (hunits : ∀ i u, w.library.units[i]? = some u → (source i).compile = .ok u)
    (hempty : w.library.loaded = []) (hthere : ∀ i ∈ loads, i < w.library.units.size) :
    (w.loadAll loads).library.Loaded source loads := by
  rw [loadAll_library, hempty, List.append_nil]
  exact ⟨hunits, rfl, hthere⟩

/-- Whatever compiles is a unit in which each template of its source is once, in the order of its
declaration, and found under its name together with the metadata of the same source. After any loads the
registry has under each name the template and the metadata of the latest unit that declares it, and tells
of an element what the latest unit that has an entry for it tells. -/
theorem Workspace.registry_coherent (w : Workspace) (source : Nat → UnitSource)
    (hunits : ∀ i u, w.library.units[i]? = some u → (source i).compile = .ok u)
    (hempty : w.library.loaded = []) (loads : List Nat)
    (hthere : ∀ i ∈ loads, i < w.library.units.size) :
    (∀ s u, UnitSource.compile s = .ok u → u.Coherent s) ∧
      (∀ name, (w.loadAll loads).library.Registers source loads name) ∧
      ∀ table id, (w.loadAll loads).library.Describes source loads table id :=
  have hloaded := loadAll_loaded hunits hempty hthere
  ⟨fun _ _ => CompiledUnit.coherent_of_compile, hloaded.registers, hloaded.describes⟩

def UnitSource.one (file : TemplateFile) (icons : ElementTable) : UnitSource :=
  ⟨{}, [file], ⟨[("icons", icons)]⟩⟩

def TemplateFile.reprint : TemplateFile := ⟨"", [], [{ Template.empty "letter" with body := [] }]⟩

/-- The letter is registered from the unit loaded last; its icon is told by the unit loaded first, as the
other unit's table does not have it. -/
theorem Workspace.registry_coherent_reprint :
    let source : Nat → UnitSource := fun i =>
      if i = 0 then .one .letter ⟨[(7, "stamp")]⟩ else .one .reprint .empty
    let reprint : CompiledUnit := ⟨[⟨"letter", false, .html, ⟨#[], #[], #[], [], []⟩, []⟩],
      [.of .reprint { Template.empty "letter" with body := [] }], ⟨[("icons", .empty)]⟩⟩
    let w : Workspace := { empty with
      library := ⟨#[{ CompiledUnit.letter with tables := ⟨[("icons", ⟨[(7, "stamp")]⟩)]⟩ }, reprint],
        #[], []⟩ }
    (w.loadAll [0, 1]).library.registered? "letter" = some (.compiled 1 "letter") ∧
      (w.loadAll [0, 1]).library.registeredElement? "icons" 7 = some "stamp" ∧
      (w.loadAll [0, 1]).library.Registers source [0, 1] "letter" ∧
      (w.loadAll [0, 1]).library.Describes source [0, 1] "icons" 7 := by
  intro source reprint w
  have hunits : ∀ i u, w.library.units[i]? = some u → (source i).compile = .ok u := by
    intro i u hu
    match i, hu with
    | 0, hu | 1, hu =>
      cases hu
      refine CompiledUnit.compile_single rfl ?_
      rw [Template.compile_eq]
      rfl
  obtain ⟨-, hregisters, hdescribes⟩ := registry_coherent w source hunits rfl [0, 1] (by decide)
  exact ⟨by decide, by decide, hregisters "letter", hdescribes "icons" 7⟩

/-- For every name and variant of a delegate the registry selects the first template that carries them in
the latest unit that has one, else the same for the empty variant, else nothing. -/
theorem Workspace.registry_selects (w : Workspace) (source : Nat → UnitSource)
    (hunits : ∀ i u, w.library.units[i]? = some u → (source i).compile = .ok u)
    (hempty : w.library.loaded = []) (loads : List Nat)
    (hthere : ∀ i ∈ loads, i < w.library.units.size) (name variant : String) : ∃ exact default,
      (w.loadAll loads).library.Selects source loads name variant exact ∧
        (w.loadAll loads).library.Selects source loads name "" default ∧
        (Lookup.registry (w.loadAll loads).library).delegate? name variant = exact.or default :=
  have hloaded := loadAll_loaded hunits hempty hthere
  ⟨_, _, hloaded.selects name variant, hloaded.selects name "", rfl⟩

/-- What carries no name implements no delegate either: a letter is selected. -/
example : (Lookup.registry ⟨#[.letter], #[], [0]⟩).delegate? "" "" = some (.compiled 0 "letter") := by
  decide

end ResumableTemplates
