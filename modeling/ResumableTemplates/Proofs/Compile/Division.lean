import Mathlib.Data.List.Nodup
import Mathlib.Data.List.Pairwise
import ResumableTemplates.Proofs.Compile.Portable

/-! Templates divided into units. Each part of them is compiled to a unit, and the registry has all
of these; if no two templates have one name or implement one variant of a delegate, it makes no
difference in which order they were loaded. -/
namespace ResumableTemplates

def Template.Implements (t : Template) (name variant : String) : Prop :=
  ∃ d, t.delegate = some d ∧ d.name = name ∧ d.variant = variant

theorem Template.implements_iff {t : Template} {f : TemplateFile} {name variant : String}
    (hname : name ≠ "") : (Metadata.of f t).delegate.name = name ∧
      (Metadata.of f t).delegate.variant = variant ↔ t.Implements name variant := by
  simp only [Metadata.of, DelegateMetadata.of, Implements]
  cases t.delegate with
  | none =>
    refine ⟨fun h => absurd h.1.symm hname, ?_⟩
    rintro ⟨d, hd, -⟩
    cases hd
  | some d =>
    refine ⟨fun h => ⟨d, rfl, h⟩, ?_⟩
    rintro ⟨e, he, h⟩
    cases he
    exact h

/-- Holds of templates of different names that implement different variants of delegates, if any,
and are portable. -/
structure Template.Separable (ts : List Template) : Prop where
  names : (ts.map (·.name)).Nodup
  variants : ts.Pairwise fun t u =>
    ∀ name variant, t.Implements name variant → ¬ u.Implements name variant
  portable : ∀ t ∈ ts, t.Portable

namespace Template.Separable

variable {ts us : List Template} {t u : Template} {name variant : String}

theorem perm (h : Separable ts) (hperm : ts.Perm us) : Separable us where
  names := (hperm.map _).nodup_iff.1 h.names
  variants := (hperm.pairwise_iff fun h name variant hu ht => h name variant ht hu).1 h.variants
  portable t ht := h.portable t (hperm.mem_iff.2 ht)

theorem unique (h : Separable ts) (ht : t ∈ ts) (hu : u ∈ ts) (htv : t.Implements name variant)
    (huv : u.Implements name variant) : t = u := by
  by_contra hne
  have : Std.Symm fun t u : Template => ∀ name variant,
      t.Implements name variant → ¬ u.Implements name variant :=
    ⟨fun _ _ h name variant hu ht => h name variant ht hu⟩
  exact h.variants.forall ht hu hne name variant htv huv

end Template.Separable

def TemplateFile.declared (files : List TemplateFile) : List Template := files.flatMap (·.templates)

section Units

variable {o : CompileOptions} {files : List TemplateFile} {tables : Table String ElementTable}
  {u : CompiledUnit} (h : CompiledUnit.compile o files tables = .ok u)

include h

theorem CompiledUnit.exists_compiled {t : Template} (ht : t ∈ TemplateFile.declared files) :
    ∃ c ∈ u.templates, t.compile o.joins = .ok c ∧ ∃ f, Metadata.of f t ∈ u.metadata := by
  obtain ⟨cs, hcs, htemplates, hmetadata, -⟩ := compile_ok h
  obtain ⟨f, hf, ht⟩ := List.mem_flatMap.1 ht
  have hsource : (f, t) ∈ TemplateFile.templatesOf files :=
    List.mem_flatMap.2 ⟨f, hf, List.mem_map_of_mem ht⟩
  obtain ⟨d, hd, hc, hm⟩ := exists_of_forall₂_left hcs hsource
  rw [htemplates, hmetadata]
  exact ⟨d.1, List.mem_map_of_mem hd, hc, f, hm ▸ List.mem_map_of_mem hd⟩

theorem CompiledUnit.source_of_metadata {m : Metadata} (hm : m ∈ u.metadata) :
    ∃ f, ∃ t ∈ TemplateFile.declared files, m = .of f t := by
  obtain ⟨cs, hcs, -, hmetadata, -⟩ := compile_ok h
  rw [hmetadata] at hm
  obtain ⟨d, hd, rfl⟩ := List.mem_map.1 hm
  obtain ⟨⟨f, t⟩, hs, -, hd⟩ := exists_of_forall₂_left (List.Forall₂.flip hcs) hd
  obtain ⟨g, hg, hs⟩ := List.mem_flatMap.1 hs
  obtain ⟨t', ht, hs⟩ := List.mem_map.1 hs
  cases hs
  exact ⟨f, t, List.mem_flatMap.2 ⟨f, hg, ht⟩, hd⟩

theorem CompiledUnit.template?_iff (hnames : ((TemplateFile.declared files).map (·.name)).Nodup)
    {name : String} {c : CompiledTemplate} : u.template? name = some c ↔
      ∃ t ∈ TemplateFile.declared files, t.name = name ∧ t.compile o.joins = .ok c := by
  have hsource : ∀ {c : CompiledTemplate}, u.template? name = some c →
      ∃ t ∈ TemplateFile.declared files, t.name = name ∧ t.compile o.joins = .ok c := by
    intro c hc
    obtain ⟨f, hf, t, ht, htc⟩ := source_of_template? h hc
    have hname : c.name = name := by simpa using List.find?_some hc
    exact ⟨t, List.mem_flatMap.2 ⟨f, hf, ht⟩, (Template.compile_ok htc).1.symm.trans hname, htc⟩
  refine ⟨hsource, ?_⟩
  rintro ⟨t, ht, hname, htc⟩
  obtain ⟨d, hd, htd, -⟩ := exists_compiled h ht
  cases htc.symm.trans htd
  cases hfind : u.template? name with
  | none =>
    have := List.find?_eq_none.1 hfind c hd
    rw [decide_eq_true_eq] at this
    exact absurd ((Template.compile_ok htc).1.trans hname) this
  | some d =>
    obtain ⟨t', ht', hname', htc'⟩ := hsource hfind
    obtain rfl := List.inj_on_of_nodup_map hnames ht' ht (hname'.trans hname.symm)
    exact congrArg some (Except.ok.inj (htc'.symm.trans htc))

end Units

def Part (parts : List (List TemplateFile)) (i : Nat) (t : Template) : Prop :=
  ∃ files, parts[i]? = some files ∧ t ∈ TemplateFile.declared files

def Part.union (parts : List (List TemplateFile)) : List Template :=
  parts.flatMap TemplateFile.declared

/-- Holds of the libraries that have each part of some templates as a unit, and all of these units
in the registry. -/
structure Library.Divides (joins : Bool) (parts : List (List TemplateFile)) (l : Library) :
    Prop where
  size : l.units.size = parts.length
  units : ∀ (i : Nat) files u, parts[i]? = some files → l.units[i]? = some u →
    ∃ tables, CompiledUnit.compile ⟨joins⟩ files tables = .ok u
  loaded : ∀ i, i < parts.length → i ∈ l.loaded

theorem Library.Divides.isCompiled {joins : Bool} {parts : List (List TemplateFile)} {l : Library}
    (h : l.Divides joins parts) : l.IsCompiled := by
  intro u hu
  obtain ⟨i, hi⟩ := Array.mem_iff_getElem?.1 hu
  have hlt : i < parts.length := h.size ▸ (Array.getElem?_eq_some_iff.1 hi).1
  obtain ⟨tables, hc⟩ := h.units i _ u (List.getElem?_eq_getElem hlt) hi
  exact ⟨⟨joins⟩, _, tables, hc⟩

section Parts

variable {parts : List (List TemplateFile)} {i j : Nat} {t u : Template}

theorem Part.mem_union (h : Part parts i t) : t ∈ union parts := by
  obtain ⟨files, hfiles, ht⟩ := h
  exact List.mem_flatMap.2 ⟨files, List.mem_of_getElem? hfiles, ht⟩

theorem Part.exists_of_mem (h : t ∈ union parts) : ∃ i, Part parts i t := by
  obtain ⟨files, hfiles, ht⟩ := List.mem_flatMap.1 h
  obtain ⟨i, hi⟩ := List.getElem?_of_mem hfiles
  exact ⟨i, files, hi, ht⟩

variable (hnames : ((Part.union parts).map (·.name)).Nodup)

include hnames

theorem Part.unique (ht : Part parts i t) (hu : Part parts j u) (h : t.name = u.name) :
    i = j ∧ t = u := by
  refine ⟨?_, List.inj_on_of_nodup_map hnames ht.mem_union hu.mem_union h⟩
  induction parts generalizing i j with
  | nil =>
    obtain ⟨files, hfiles, -⟩ := ht
    cases hfiles
  | cons part parts ih =>
    simp only [union, List.flatMap_cons, List.map_append, List.nodup_append] at hnames
    obtain ⟨-, hrest, hapart⟩ := hnames
    have hcross : ∀ {t u : Template} {k : Nat}, t ∈ TemplateFile.declared part → Part parts k u →
        t.name ≠ u.name := fun ht hu =>
      hapart _ (List.mem_map_of_mem ht) _ (List.mem_map_of_mem hu.mem_union)
    obtain ⟨files, hfiles, ht⟩ := ht
    obtain ⟨files', hfiles', hu⟩ := hu
    cases i with
    | zero =>
      cases hfiles
      cases j with
      | zero => rfl
      | succ j => exact absurd h (hcross ht ⟨files', hfiles', hu⟩)
    | succ i =>
      cases j with
      | zero =>
        cases hfiles'
        exact absurd h.symm (hcross hu ⟨files, hfiles, ht⟩)
      | succ j => exact congrArg (· + 1) (ih hrest ⟨files, hfiles, ht⟩ ⟨files', hfiles', hu⟩)

omit hnames in
theorem Part.nodup {files : List TemplateFile} (hnames : ((Part.union parts).map (·.name)).Nodup)
    (h : parts[i]? = some files) : ((TemplateFile.declared files).map (·.name)).Nodup := by
  rw [Part.union, List.map_flatMap, List.nodup_flatMap] at hnames
  exact hnames.1 files (List.mem_of_getElem? h)

namespace Library.Divides

variable {joins : Bool} {l : Library} (h : l.Divides joins parts) {name : String}

include h

omit hnames in
theorem exists_unit {files : List TemplateFile} (hfiles : parts[i]? = some files) :
    ∃ u tables, l.units[i]? = some u ∧ CompiledUnit.compile ⟨joins⟩ files tables = .ok u := by
  obtain ⟨hi, -⟩ := List.getElem?_eq_some_iff.1 hfiles
  have hu := Array.getElem?_eq_getElem (h.size.symm ▸ hi)
  obtain ⟨tables, hc⟩ := h.units i files _ hfiles hu
  exact ⟨_, tables, hu, hc⟩

omit hnames in
theorem exists_part {u : CompiledUnit} (hu : l.units[i]? = some u) :
    ∃ files tables, parts[i]? = some files ∧ CompiledUnit.compile ⟨joins⟩ files tables = .ok u := by
  obtain ⟨hi, -⟩ := Array.getElem?_eq_some_iff.1 hu
  have hfiles := List.getElem?_eq_getElem (h.size ▸ hi)
  obtain ⟨tables, hc⟩ := h.units i _ u hfiles hu
  exact ⟨_, tables, hfiles, hc⟩

theorem compiled?_iff {c : CompiledTemplate} : l.compiled? i name = some c ↔
    ∃ t, Part parts i t ∧ t.name = name ∧ t.compile joins = .ok c := by
  rw [compiled?, Option.bind_eq_some_iff]
  constructor
  · rintro ⟨u, hu, hc⟩
    obtain ⟨files, tables, hfiles, hcompile⟩ := h.exists_part hu
    obtain ⟨t, ht, hname, htc⟩ :=
      (CompiledUnit.template?_iff hcompile (Part.nodup hnames hfiles)).1 hc
    exact ⟨t, ⟨files, hfiles, ht⟩, hname, htc⟩
  · rintro ⟨t, ⟨files, hfiles, ht⟩, hname, htc⟩
    obtain ⟨u, tables, hu, hcompile⟩ := h.exists_unit hfiles
    exact ⟨u, hu, (CompiledUnit.template?_iff hcompile (Part.nodup hnames hfiles)).2
      ⟨t, ht, hname, htc⟩⟩

omit hnames in
theorem exists_compiled (ht : Part parts i t) : ∃ c, t.compile joins = .ok c := by
  obtain ⟨files, hfiles, ht⟩ := ht
  obtain ⟨u, tables, -, hcompile⟩ := h.exists_unit hfiles
  obtain ⟨c, -, hc, -⟩ := CompiledUnit.exists_compiled hcompile ht
  exact ⟨c, hc⟩

omit hnames in
theorem firstLoaded?_iff {f : Nat → CompiledUnit → Option α} {a : α}
    (hf : ∀ i u j v a b, l.units[i]? = some u → l.units[j]? = some v → f i u = some a →
      f j v = some b → a = b) :
    l.firstLoaded? f = some a ↔ ∃ i u, l.units[i]? = some u ∧ f i u = some a := by
  have hthere : ∀ {a : α}, l.firstLoaded? f = some a →
      ∃ i u, l.units[i]? = some u ∧ f i u = some a := by
    intro a ha
    obtain ⟨i, -, ha⟩ := List.exists_of_findSome?_eq_some ha
    obtain ⟨u, hu, ha⟩ := Option.bind_eq_some_iff.1 ha
    exact ⟨i, u, hu, ha⟩
  refine ⟨hthere, ?_⟩
  rintro ⟨i, u, hu, ha⟩
  cases hb : l.firstLoaded? f with
  | none =>
    obtain ⟨hi, -⟩ := Array.getElem?_eq_some_iff.1 hu
    have := List.findSome?_eq_none_iff.1 hb i (h.loaded i (h.size ▸ hi))
    rw [hu] at this
    cases ha.symm.trans this
  | some b =>
    obtain ⟨j, v, hv, hb⟩ := hthere hb
    exact congrArg some (hf j v i u b a hv hu hb ha)

theorem registered?_iff {r : TemplateRef} : l.registered? name = some r ↔
    ∃ i t, Part parts i t ∧ t.name = name ∧ r = .compiled i name := by
  have hunit : ∀ {i : Nat} {u : CompiledUnit} {r : TemplateRef}, l.units[i]? = some u →
      ((u.template? name).map fun _ => TemplateRef.compiled i name) = some r →
        ∃ t, Part parts i t ∧ t.name = name ∧ r = .compiled i name := by
    intro i u r hu hr
    obtain ⟨c, hc, rfl⟩ := Option.map_eq_some_iff.1 hr
    obtain ⟨t, ht, hname, -⟩ := (h.compiled?_iff hnames).1 (Option.bind_eq_some_iff.2 ⟨u, hu, hc⟩)
    exact ⟨t, ht, hname, rfl⟩
  rw [registered?, h.firstLoaded?_iff]
  · constructor
    · rintro ⟨i, u, hu, hr⟩
      exact ⟨i, hunit hu hr⟩
    · rintro ⟨i, t, ht, hname, rfl⟩
      obtain ⟨c, hc⟩ := h.exists_compiled ht
      obtain ⟨u, hu, hc⟩ := Option.bind_eq_some_iff.1
        ((h.compiled?_iff hnames).2 ⟨t, ht, hname, hc⟩)
      exact ⟨i, u, hu, Option.map_eq_some_iff.2 ⟨c, hc, rfl⟩⟩
  · intro i u j v a b hu hv ha hb
    obtain ⟨t, ht, hname, rfl⟩ := hunit hu ha
    obtain ⟨t', ht', hname', rfl⟩ := hunit hv hb
    rw [(ht.unique hnames ht' (hname.trans hname'.symm)).1]

omit hnames in
theorem registeredVariant?_iff (hts : Template.Separable (Part.union parts)) {variant : String}
    (hname : name ≠ "") {r : TemplateRef} : l.registeredVariant? name variant = some r ↔
    ∃ i t, Part parts i t ∧ t.Implements name variant ∧ r = .compiled i t.name := by
  have hunit : ∀ {i : Nat} {u : CompiledUnit} {r : TemplateRef}, l.units[i]? = some u →
      (u.delegate? name variant).map (TemplateRef.compiled i) = some r →
        ∃ t, Part parts i t ∧ t.Implements name variant ∧ r = .compiled i t.name := by
    intro i u r hu hr
    obtain ⟨n, hn, rfl⟩ := Option.map_eq_some_iff.1 hr
    obtain ⟨m, hm, rfl⟩ := Option.map_eq_some_iff.1 hn
    obtain ⟨files, tables, hfiles, hcompile⟩ := h.exists_part hu
    obtain ⟨f, t, ht, rfl⟩ :=
      CompiledUnit.source_of_metadata hcompile (List.mem_of_find?_eq_some hm)
    refine ⟨t, ⟨files, hfiles, ht⟩, ?_, rfl⟩
    have := List.find?_some hm
    simp only [Bool.and_eq_true, decide_eq_true_eq] at this
    exact (Template.implements_iff hname).1 this
  -- The name must not be empty: templates that implement no delegate carry the empty one.
  rw [registeredVariant?, h.firstLoaded?_iff]
  · constructor
    · rintro ⟨i, u, hu, hr⟩
      exact ⟨i, hunit hu hr⟩
    · rintro ⟨i, t, ⟨files, hfiles, ht⟩, himpl, rfl⟩
      obtain ⟨u, tables, hu, hcompile⟩ := h.exists_unit hfiles
      obtain ⟨-, -, -, f, hm⟩ := CompiledUnit.exists_compiled hcompile ht
      refine ⟨i, u, hu, ?_⟩
      cases hfind : u.metadata.find? fun m =>
          m.delegate.name = name && m.delegate.variant = variant with
      | none =>
        have := List.find?_eq_none.1 hfind _ hm
        simp only [Bool.and_eq_true, decide_eq_true_eq] at this
        exact absurd ((Template.implements_iff (f := f) hname).2 himpl) this
      | some m =>
        have hr : (u.delegate? name variant).map (TemplateRef.compiled i) =
            some (.compiled i m.name) := by
          rw [CompiledUnit.delegate?, hfind]
          rfl
        obtain ⟨t', ht', himpl', he⟩ := hunit hu hr
        rw [hr, he, hts.unique ht'.mem_union (Part.mem_union ⟨files, hfiles, ht⟩) himpl' himpl]
  · intro i u j v a b hu hv ha hb
    obtain ⟨t, ht, himpl, rfl⟩ := hunit hu ha
    obtain ⟨t', ht', himpl', rfl⟩ := hunit hv hb
    obtain rfl := hts.unique ht.mem_union ht'.mem_union himpl himpl'
    rw [(ht.unique hts.names ht' rfl).1]

end Library.Divides

end Parts

end ResumableTemplates
