import ResumableTemplates.Proofs.Compile.Origins
import ResumableTemplates.Proofs.Render.Course
import ResumableTemplates.Proofs.Render.Fallback

/-! Metadata of dependencies. It lists each name once, where it occurs first; and whatever a render asks
a site or the lookup for, the metadata of the template that is running lists. -/
namespace ResumableTemplates

/-- Holds of the list that has each name of another once, in the order in which they occur first. -/
structure ListsFirsts (occurrences names : List String) : Prop where
  nodup : names.Nodup
  mem : ∀ n, n ∈ names ↔ n ∈ occurrences
  ordered : names.Pairwise fun m n => occurrences.idxOf m < occurrences.idxOf n

theorem idxOf_lt_of_filter {p : String → Bool} {m n : String} (hm : p m = true) (hn : p n = true)
    {names : List String} (h : (names.filter p).idxOf m < (names.filter p).idxOf n) :
    names.idxOf m < names.idxOf n := by
  induction names with
  | nil => exact absurd h (Nat.lt_irrefl _)
  | cons x xs ih =>
    by_cases hx : p x = true
    · rw [List.filter_cons_of_pos hx] at h
      simp only [List.idxOf_cons, cond_eq_ite] at h ⊢
      split at h <;> split at h <;> simp_all
    · rw [List.filter_cons_of_neg hx] at h
      have hxm : x ≠ m := fun e => hx (e ▸ hm)
      have hxn : x ≠ n := fun e => hx (e ▸ hn)
      rw [List.idxOf_cons_ne _ hxm, List.idxOf_cons_ne _ hxn]
      exact Nat.succ_lt_succ (ih h)

theorem ListsFirsts.of_eraseDups (names : List String) : ListsFirsts names names.eraseDups := by
  cases names with
  | nil => exact ⟨.nil, fun _ => Iff.rfl, .nil⟩
  | cons x xs =>
    have hrest := of_eraseDups (xs.filter fun n => !n == x)
    have hne : ∀ n ∈ (xs.filter fun n => !n == x).eraseDups, n ≠ x := by
      intro n hn
      simpa using (List.mem_filter.1 ((hrest.mem n).1 hn)).2
    refine ⟨?_, fun n => List.mem_eraseDups, ?_⟩ <;> rw [List.eraseDups_cons]
    · exact List.nodup_cons.2 ⟨fun h => hne x h rfl, hrest.nodup⟩
    · refine List.pairwise_cons.2 ⟨fun n hn => ?_, hrest.ordered.imp_of_mem fun hm hn h => ?_⟩
      · rw [List.idxOf_cons_self, List.idxOf_cons_ne _ (hne n hn).symm]
        exact Nat.succ_pos _
      · have hm := hne _ hm
        have hn := hne _ hn
        rw [List.idxOf_cons_ne _ hm.symm, List.idxOf_cons_ne _ hn.symm]
        exact Nat.succ_lt_succ (idxOf_lt_of_filter (by simp [hm]) (by simp [hn]) h)
termination_by names.length
decreasing_by exact Nat.lt_succ_of_le (List.length_filter_le _ _)

/-- Holds of metadata whose lists have what occurs in a template and its file, in source order. -/
structure Metadata.Describes (m : Metadata) (f : TemplateFile) (t : Template) : Prop where
  css : ListsFirsts (f.css ++ t.css) m.css
  injected : ListsFirsts (t.visits.filterMap t.injectedRead?) m.injected
  callees : ListsFirsts (t.visits.filterMap Visit.callee?) m.callees
  delegateCallees : ListsFirsts (t.visits.filterMap Visit.delegateCallee?) m.delegateCallees

theorem Metadata.of_describes (f : TemplateFile) (t : Template) : (of f t).Describes f t where
  css := .of_eraseDups _
  injected := .of_eraseDups _
  callees := .of_eraseDups _
  delegateCallees := .of_eraseDups _

theorem Metadata.Describes.callee {m : Metadata} {f : TemplateFile} {t : Template}
    (h : m.Describes f t) {v : Visit} (hv : v ∈ t.visits) {name : String}
    (hname : v.callee? = some name) : name ∈ m.callees :=
  (h.callees.mem name).2 (List.mem_filterMap.2 ⟨v, hv, hname⟩)

theorem Metadata.Describes.delegateCallee {m : Metadata} {f : TemplateFile} {t : Template}
    (h : m.Describes f t) {v : Visit} (hv : v ∈ t.visits) {name : String}
    (hname : v.delegateCallee? = some name) : name ∈ m.delegateCallees :=
  (h.delegateCallees.mem name).2 (List.mem_filterMap.2 ⟨v, hv, hname⟩)

section Ops

variable {layout : Array SlotInfo} {Q : Visit → Prop} {op : Op}

theorem Op.Refers.of_callee? {op : Op} {site : Nat} {name : String}
    (h : op.callee? = some (.template site name)) : op.Refers site name .call := by
  match op, h with
  | .call .., rfl => exact .call rfl

theorem Op.Comes.names_callee (h : op.Comes layout Q) {site : Nat} {name : String} {use : Use}
    (hrefers : op.Refers site name use) : ∃ v, Q v ∧ v.callee? = some name := by
  cases hrefers with
  | call he =>
    obtain ⟨target, as, σ, τ, hyields, hvisit⟩ := h.callee (.template site name) (by rw [he]; rfl)
    cases Compile.callee_lowers hyields
    exact ⟨_, hvisit, rfl⟩
  | literal hc hpart =>
    obtain ⟨e, σ, τ, hyields, -, -, hvisits⟩ := h.codes _ hc
    obtain ⟨e', υ, ω, hyields', -, hsub⟩ := Expr.compile_parts hyields _ hpart
    obtain rfl : e' = .template name := Expr.compile_leaf hyields'
    exact ⟨_, hvisits _ (hsub _ List.mem_cons_self), rfl⟩

theorem Op.Comes.names_delegate (h : op.Comes layout Q) {name : String} {variant : Option Code}
    {allowEmpty : Bool} (hcallee : op.callee? = some (.delegate name variant allowEmpty)) :
    ∃ v, Q v ∧ v.delegateCallee? = some name := by
  obtain ⟨target, as, σ, τ, hyields, hvisit⟩ := h.callee _ hcallee
  cases Compile.callee_lowers hyields <;> exact ⟨_, hvisit, rfl⟩

end Ops

namespace Library

def metadata? (lib : Library) (unit : Nat) (name : String) : Option Metadata :=
  (lib.units[unit]?).bind (·.metadata? name)

end Library

namespace CompiledUnit

variable {joins : Bool}

theorem names_nodup_of_compileAll {seen : List String} {sources : List (TemplateFile × Template)}
    {cs : List (CompiledTemplate × Metadata)} (h : compileAll joins seen sources = .ok cs) :
    (sources.map (·.2.name)).Nodup ∧ ∀ s ∈ sources, s.2.name ∉ seen := by
  induction sources generalizing seen cs with
  | nil => exact ⟨.nil, fun _ hs => by cases hs⟩
  | cons s sources ih =>
    rw [compileAll] at h
    split at h
    · cases h
    · rename_i hnew
      obtain ⟨c, -, h⟩ := Except.bind_ok_iff.1 h
      obtain ⟨cs, hcs, -⟩ := Except.bind_ok_iff.1 h
      obtain ⟨hnodup, hfresh⟩ := ih hcs
      rw [List.map_cons, List.nodup_cons, List.mem_map]
      refine ⟨⟨?_, hnodup⟩, List.forall_mem_cons.2 ⟨hnew, fun s' hs' hseen => ?_⟩⟩
      · rintro ⟨s', hs', hname⟩
        exact hfresh s' hs' (hname ▸ List.mem_cons_self)
      · exact hfresh s' hs' (List.mem_cons_of_mem _ hseen)

theorem find_compiled {sources : List (TemplateFile × Template)}
    {cs : List (CompiledTemplate × Metadata)} (h : List.Forall₂ (Compiles joins) sources cs)
    (hnames : (sources.map (·.2.name)).Nodup) {s : TemplateFile × Template} (hs : s ∈ sources) :
    ∃ c, s.2.compile joins = .ok c ∧ (cs.map (·.1)).find? (·.name = s.2.name) = some c ∧
      (cs.map (·.2)).find? (·.name = s.2.name) = some (.of s.1 s.2) := by
  induction h with
  | nil => cases hs
  | @cons s' d sources cs hd _ ih =>
    rw [List.map_cons, List.nodup_cons] at hnames
    have hc : d.1.name = s'.2.name := (Template.compile_ok hd.1).1
    have hm : d.2.name = s'.2.name := by rw [hd.2]; rfl
    simp only [List.map_cons, List.find?_cons, hc, hm]
    cases hs with
    | head => simp [hd.1, hd.2]
    | tail _ hs =>
      have hne : s'.2.name ≠ s.2.name := fun e => hnames.1 (e ▸ List.mem_map_of_mem hs)
      simp only [hne, decide_false]
      exact ih hnames.2 hs

theorem exists_described {files : List TemplateFile} {tables : Table String ElementTable}
    {o : CompileOptions} {u : CompiledUnit} (h : compile o files tables = .ok u) {f : TemplateFile}
    (hf : f ∈ files) {t : Template} (ht : t ∈ f.templates) : ∃ c m, t.compile o.joins = .ok c ∧
      u.template? t.name = some c ∧ u.metadata? t.name = some m ∧ m.Describes f t := by
  have hs : (f, t) ∈ TemplateFile.templatesOf files :=
    List.mem_flatMap.2 ⟨f, hf, List.mem_map_of_mem ht⟩
  obtain ⟨cs, hcs, h⟩ := Except.bind_ok_iff.1 h
  cases h
  obtain ⟨c, hok, hc, hm⟩ := find_compiled (compileAll_ok hcs) (names_nodup_of_compileAll hcs).1 hs
  exact ⟨c, _, hok, hc, hm, Metadata.of_describes f t⟩

end CompiledUnit

theorem Library.IsCompiled.source {lib : Library} (h : lib.IsCompiled) {unit : Nat} {name : String}
    {c : CompiledTemplate} (hc : lib.compiled? unit name = some c) :
    ∃ joins f t m, t.compile joins = .ok c ∧ lib.metadata? unit name = some m ∧ m.Describes f t := by
  obtain ⟨u, hu, hc⟩ := Option.bind_eq_some_iff.1 hc
  obtain ⟨o, files, tables, hcompile⟩ := h u (Array.mem_of_getElem? hu)
  obtain ⟨f, hf, t, ht, hok⟩ := CompiledUnit.source_of_template? hcompile hc
  obtain ⟨-, m, -, -, hm, hdescribes⟩ := CompiledUnit.exists_described hcompile hf ht
  have hname : c.name = name := by simpa using List.find?_some hc
  rw [← (Template.compile_ok hok).1, hname] at hm
  exact ⟨o.joins, f, t, m, hok, Option.bind_eq_some_iff.2 ⟨u, hu, hm⟩, hdescribes⟩

/-- Holds of an event that asks only for what the metadata of the running template lists. -/
def Event.IsListed (lib : Library) : Event → Prop
  | .resolve site _ name => ∃ m, lib.metadata? site.unit site.template = some m ∧ name ∈ m.callees
  | .select unit template delegate _ =>
    ∃ m, lib.metadata? unit template = some m ∧ delegate ∈ m.delegateCallees
  | _ => True

theorem Event.isListed_of_not_isReference {lib : Library} {e : Event} (h : e.isReference = false) :
    e.IsListed lib := by
  cases e with
  | resolve | select => cases h
  | _ => trivial

def RenderState.Listed (lib : Library) (s t : RenderState) : Prop :=
  ∃ new, t.events = new ++ s.events ∧ ∀ e ∈ new, e.IsListed lib

namespace Course

def listed (lib : Library) : Course := fun s _ t => s.Listed lib t

variable {lib : Library}

theorem listed_note {e : Event} (h : e.IsListed lib) (s : RenderState) (stop : Option Stop) :
    listed lib s stop { s with events := e :: s.events } :=
  ⟨[e], rfl, List.forall_mem_singleton.2 h⟩

theorem listed_lawful : (listed lib).Lawful where
  aside h := ⟨[], h.events, fun _ h => by cases h⟩
  note h := listed_note (Event.isListed_of_not_isReference h) _ _
  andThen h h' := by
    obtain ⟨new, hnew, hlisted⟩ := h
    obtain ⟨new', hnew', hlisted'⟩ := h'
    exact ⟨new' ++ new, by rw [hnew', hnew, List.append_assoc],
      List.forall_mem_append.2 ⟨hlisted', hlisted⟩⟩
  andAside h h' := by
    obtain ⟨new, hnew, hlisted⟩ := h
    exact ⟨new, h'.events.trans hnew, hlisted⟩
  caught h := h

theorem bind_listed (site : Site) (b : Binding) : (listed lib).Takes (Activation.bind site b) :=
  fun _ => ⟨[], rfl, fun _ h => by cases h⟩

theorem listed_serves {env : Env} (h : env.library.IsCompiled) :
    (listed env.library).Serves env where
  resolve a op use i name ha hop hrefers s := by
    obtain ⟨joins, f, t, m, hok, hm, hdescribes⟩ := h.source ha
    obtain ⟨v, hv, hname⟩ := (Template.compile_comes hok op hop).names_callee hrefers
    have hlisted : (Event.resolve (a.site i (.template name)) use name).IsListed env.library :=
      ⟨_, hm, hdescribes.callee hv hname⟩
    exact resolve_takes listed_lawful a (fun b _ => bind_listed _ b) (listed_note hlisted s none)
  describe a i table id _ := describe_takes listed_lawful a fun b _ => bind_listed _ b
  select a point out name variant allowEmpty base args v ha hop s := by
    obtain ⟨joins, f, t, m, hok, hm, hdescribes⟩ := h.source ha
    obtain ⟨w, hw, hname⟩ := (Template.compile_comes hok _ hop).names_delegate rfl
    have hlisted : (Event.select a.unit a.template.name name v).IsListed env.library :=
      ⟨_, hm, hdescribes.delegateCallee hw hname⟩
    exact listed_note hlisted s none

end Course

theorem Call.run_listed {c : Call} (h : c.env.library.IsCompiled) (s : RenderState) :
    s.Listed c.env.library (c.run s).2 := by
  have hserves := Course.listed_serves h
  unfold Call.run
  cases c.source with
  | none => exact Course.start_takes Course.listed_lawful hserves c.template c.params s
  | some o => exact Course.resume_takes Course.listed_lawful hserves c.template c.params o s

/-- The metadata of each template that compiles lists each name of its source once, where it occurs
first, and no render asks for a name that the metadata of the template that is running does not list. -/
theorem Library.IsCompiled.dependencies {lib : Library} (h : lib.IsCompiled) :
    (∀ (c : Call) (s : RenderState), c.env.library = lib → s.Listed lib (c.run s).2) ∧
      ∀ o files tables u, CompiledUnit.compile o files tables = .ok u →
        ∀ f ∈ files, ∀ t ∈ f.templates, ∃ c m, t.compile o.joins = .ok c ∧
          u.template? t.name = some c ∧ u.metadata? t.name = some m ∧ m.Describes f t := by
  constructor
  · rintro c s rfl
    exact Call.run_listed h s
  · exact fun o files tables u hu f hf t ht => CompiledUnit.exists_described hu hf ht

/-- A page that finds its greeting in another unit lists it. -/
theorem Library.IsCompiled.dependencies_page :
    let page : Call := ⟨{ Env.plain .apart 2 with lookup := .registry .apart }, .compiled 0 "page", [], none⟩
    let s := RenderState.initial (.buffer "")
    let t : Template := { Template.empty "page" with
      body := [.text "dear ", .call (.template "greeting") .none []] }
    apart.IsCompiled ∧ (page.run s).2.chunks = ["dear ", "hi"] ∧ s.Listed .apart (page.run s).2 ∧
      (apart.metadata? 0 "page").map (·.callees) = some ["greeting"] ∧
      ∃ c m, t.compile true = .ok c ∧ (CompiledUnit.of [.page] [.page]).template? "page" = some c ∧
        (CompiledUnit.of [.page] [.page]).metadata? "page" = some m ∧ m.Describes .page t := by
  intro page s t
  obtain ⟨hruns, hsources⟩ := dependencies apart_divides.isCompiled
  exact ⟨apart_divides.isCompiled, by decide +kernel, hruns page s rfl, by decide,
    hsources {} [.page] .empty _ CompiledUnit.page_compiled .page List.mem_cons_self t List.mem_cons_self⟩

end ResumableTemplates
