import Mathlib.Data.List.Nodup
import ResumableTemplates.Proofs.Compile.Division
import ResumableTemplates.Proofs.Render.Dependencies

/-! The names of delegate implementations. A name is put together from a package, a delegate and a variant
with colons between them, and can be taken apart again where no part brings colons of its own. A unit
compiles if its templates do and no two of them have one name. Main statement: implementations whose parts
bring no colons compile together if each compiles and no two implement the same. -/
namespace ResumableTemplates

def Opens (cs : List Char) : Prop := cs = [] ∨ ∃ ds, cs = ':' :: ds

theorem takeWhile_of_opens {xs as : List Char} (hx : ':' ∉ xs) (ha : Opens as) :
    (xs ++ as).takeWhile (· ≠ ':') = xs := by
  rw [List.takeWhile_append_of_pos fun c hc => decide_eq_true (ne_of_mem_of_not_mem hc hx)]
  obtain rfl | ⟨ds, rfl⟩ := ha
  · rw [List.takeWhile_nil, List.append_nil]
  · rw [List.takeWhile_cons_of_neg (by simp), List.append_nil]

/-- Where a part without colons ends is seen by the first colon. -/
theorem append_inj_of_opens {xs ys as bs : List Char} (hx : ':' ∉ xs) (hy : ':' ∉ ys)
    (ha : Opens as) (hb : Opens bs) (h : xs ++ as = ys ++ bs) : xs = ys ∧ as = bs := by
  have hparts : xs = ys := by rw [← takeWhile_of_opens hx ha, h, takeWhile_of_opens hy hb]
  subst hparts
  exact ⟨rfl, List.append_cancel_left h⟩

namespace DelegateId

/-- Holds of delegates of which no part brings a colon where one could stand between parts. -/
structure IsPlain (d : DelegateId) : Prop where
  package : ∀ p, d.package = some p → ':' ∉ p.toList
  name : ':' ∉ d.name.toList
  variant : d.variant.toList.head? ≠ some ':'

def ending (d : DelegateId) : List Char := if d.variant = "" then [] else ':' :: d.variant.toList

theorem opens_ending (d : DelegateId) : Opens d.ending := by
  unfold ending
  split
  · exact .inl rfl
  · exact .inr ⟨_, rfl⟩

theorem variant_of_ending {d e : DelegateId} (h : d.ending = e.ending) : d.variant = e.variant := by
  unfold ending at h
  split at h <;> split at h
  · rename_i hd he
    rw [hd, he]
  · cases h
  · cases h
  · exact String.toList_inj.1 (List.cons.inj h).2

/-- No variant makes the end of a name look like a package's. -/
theorem IsPlain.ending_ne {d : DelegateId} (h : d.IsPlain) (cs : List Char) :
    d.ending ≠ ':' :: ':' :: cs := by
  unfold ending
  split
  · exact fun he => by cases he
  · intro he
    exact h.variant (by rw [(List.cons.inj he).2, List.head?_cons])

theorem templateName_toList (d : DelegateId) : d.templateName.toList =
    (match d.package with
      | none => d.name.toList
      | some p => p.toList ++ ':' :: ':' :: d.name.toList) ++ d.ending := by
  obtain ⟨package, name, variant⟩ := d
  unfold templateName ending
  cases package <;> by_cases hvariant : variant = "" <;> simp [hvariant]

/-- Plain delegates of one name are one. -/
theorem IsPlain.templateName_inj {d e : DelegateId} (hd : d.IsPlain) (he : e.IsPlain)
    (h : d.templateName = e.templateName) : d = e := by
  have hchars := congrArg String.toList h
  rw [templateName_toList, templateName_toList] at hchars
  obtain ⟨p, n, v⟩ := d
  obtain ⟨q, m, w⟩ := e
  cases p with
  | none =>
    cases q with
    | none =>
      obtain ⟨hn, hv⟩ := append_inj_of_opens hd.name he.name (opens_ending _) (opens_ending _) hchars
      obtain rfl : v = w := variant_of_ending hv
      rw [show n = m from String.toList_inj.1 hn]
    | some q =>
      rw [List.append_assoc] at hchars
      have hend := (append_inj_of_opens hd.name (he.package q rfl) (opens_ending _) (.inr ⟨_, rfl⟩)
        hchars).2
      exact absurd hend (hd.ending_ne _)
  | some p =>
    cases q with
    | none =>
      rw [List.append_assoc] at hchars
      have hend := (append_inj_of_opens (hd.package p rfl) he.name (.inr ⟨_, rfl⟩) (opens_ending _)
        hchars).2
      exact absurd hend.symm (he.ending_ne _)
    | some q =>
      rw [List.append_assoc, List.append_assoc] at hchars
      obtain ⟨hp, hrest⟩ := append_inj_of_opens (hd.package p rfl) (he.package q rfl) (.inr ⟨_, rfl⟩)
        (.inr ⟨_, rfl⟩) hchars
      obtain ⟨hn, hv⟩ := append_inj_of_opens hd.name he.name (opens_ending _) (opens_ending _)
        (List.cons.inj (List.cons.inj hrest).2).2
      obtain rfl : v = w := variant_of_ending hv
      rw [String.toList_inj.1 hp, show n = m from String.toList_inj.1 hn]

/-- A variant that stands in a delegate's name is taken for the variant. -/
theorem templateName_of_variant (package : Option String) (name : String) {variant : String}
    (h : variant ≠ "") : templateName ⟨package, name ++ ":" ++ variant, ""⟩ =
      templateName ⟨package, name, variant⟩ := by
  cases package <;> simp [templateName, h, String.append_assoc]

end DelegateId

section Compiling

variable {o : CompileOptions} {files : List TemplateFile} {tables : Table String ElementTable}

theorem CompiledUnit.exists_compileAll_iff {seen : List String}
    {sources : List (TemplateFile × Template)} : (∃ cs, compileAll o.joins seen sources = .ok cs) ↔
      ((sources.map (·.2.name)).Nodup ∧ ∀ s ∈ sources, s.2.name ∉ seen) ∧
        ∀ s ∈ sources, ∃ c, s.2.compile o.joins = .ok c := by
  constructor
  · rintro ⟨cs, hcs⟩
    refine ⟨names_nodup_of_compileAll hcs, fun s hs => ?_⟩
    obtain ⟨c, -, hc, -⟩ := exists_of_forall₂_left (compileAll_ok hcs) hs
    exact ⟨c.1, hc⟩
  · induction sources generalizing seen with
    | nil => exact fun _ => ⟨[], rfl⟩
    | cons s sources ih =>
      rintro ⟨⟨hnames, hfresh⟩, hcompile⟩
      rw [List.map_cons, List.nodup_cons] at hnames
      obtain ⟨hnew, hfresh⟩ := List.forall_mem_cons.1 hfresh
      obtain ⟨⟨c, hc⟩, hcompile⟩ := List.forall_mem_cons.1 hcompile
      -- the name that is seen now is none of the names that follow
      have hfresh' : ∀ s' ∈ sources, s'.2.name ∉ s.2.name :: seen := fun s' hs' hseen =>
        (List.mem_cons.1 hseen).elim
          (fun hname => hnames.1 (hname ▸ List.mem_map_of_mem (f := (·.2.name)) hs'))
          (hfresh s' hs')
      obtain ⟨cs, hcs⟩ := ih ⟨⟨hnames.2, hfresh'⟩, hcompile⟩
      exact ⟨(c, .of s.1 s.2) :: cs, by simp [compileAll, hnew, hc, hcs]⟩

theorem CompiledUnit.exists_compile_iff : (∃ u, compile o files tables = .ok u) ↔
    ((TemplateFile.declared files).map (·.name)).Nodup ∧
      ∀ t ∈ TemplateFile.declared files, ∃ c, t.compile o.joins = .ok c := by
  have hdeclared : (TemplateFile.templatesOf files).map (·.2) = TemplateFile.declared files := by
    simp [TemplateFile.templatesOf, TemplateFile.declared, List.map_flatMap, Function.comp_def]
  have hunit : (∃ u, compile o files tables = .ok u) ↔
      ∃ cs, compileAll o.joins [] (TemplateFile.templatesOf files) = .ok cs := by
    constructor
    · rintro ⟨u, hu⟩
      obtain ⟨cs, hcs, -⟩ := Except.bind_ok_iff.1 hu
      exact ⟨cs, hcs⟩
    · rintro ⟨cs, hcs⟩
      exact ⟨_, Except.bind_ok_iff.2 ⟨cs, hcs, rfl⟩⟩
  rw [hunit, exists_compileAll_iff, ← hdeclared, List.map_map, List.forall_mem_map]
  simp [Function.comp_def]

/-- Implementations of different delegates and variants, under the names derived for them, compile
together if each compiles. -/
theorem CompiledUnit.exists_compile_of_isPlain
    (hnames : ∀ t ∈ TemplateFile.declared files,
      ∃ d, t.delegate = some d ∧ d.IsPlain ∧ t.name = d.templateName)
    (hdistinct : ((TemplateFile.declared files).map (·.delegate)).Nodup)
    (hcompile : ∀ t ∈ TemplateFile.declared files, ∃ c, t.compile o.joins = .ok c) :
    ∃ u, compile o files tables = .ok u := by
  refine exists_compile_iff.2 ⟨List.pairwise_map.2 ?_, hcompile⟩
  refine (List.pairwise_map.1 hdistinct).imp_of_mem fun ht ht' hne hsame => hne ?_
  obtain ⟨d, hd, hplain, hname⟩ := hnames _ ht
  obtain ⟨e, he, hplain', hname'⟩ := hnames _ ht'
  rw [hd, he, hplain.templateName_inj hplain' (hname.symm.trans (hsame.trans hname'))]

/-- A variant of a delegate and the delegate that is named like it cannot be compiled together. -/
example : (CompiledUnit.compile {} [⟨"", [], [.implementing ⟨none, "button", "blue"⟩,
      .implementing ⟨none, "button:blue", ""⟩]⟩] .empty).isOk = false := by
  decide

end Compiling

end ResumableTemplates
