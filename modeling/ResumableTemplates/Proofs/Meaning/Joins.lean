import ResumableTemplates.Proofs.Compile.Admission
import ResumableTemplates.Proofs.Compile.Joining
import ResumableTemplates.Proofs.Meaning.Agreement
import ResumableTemplates.Proofs.Meaning.Refinement
import ResumableTemplates.Proofs.Render.Schedules
import ResumableTemplates.Proofs.Workspace.Registry

/-! Joined texts are not seen. Units compiled with them and without have the same meaning, since that is
told of their sources, and any render does what its template means. Main statement: whether texts are
joined makes no difference to what compiles, to the metadata, to the slots, and to what is written. -/
namespace ResumableTemplates

/-- Holds of units compiled from the same files and tables, with texts joined or not. -/
def CompiledUnit.Recompiled (u v : CompiledUnit) : Prop :=
  ∃ files tables o o', compile o files tables = .ok u ∧ compile o' files tables = .ok v

structure Library.Recompiled (l k : Library) : Prop where
  units : List.Forall₂ CompiledUnit.Recompiled l.units.toList k.units.toList
  hosts : l.hosts = k.hosts
  loaded : l.loaded = k.loaded

namespace CompiledUnit.Recompiled

variable {u v : CompiledUnit} (h : u.Recompiled v)

include h

theorem template? (name : String) : (u.template? name).isSome = (v.template? name).isSome := by
  obtain ⟨files, tables, o, o', hu, hv⟩ := h
  exact (template?_compiles hu name).isSome.symm.trans (template?_compiles hv name).isSome

theorem metadata : u.metadata = v.metadata := by
  obtain ⟨files, tables, o, o', hu, hv⟩ := h
  have hlisted := (coherent_of_compile (s := ⟨o, files, tables⟩) hu).listed
  exact hlisted.trans (coherent_of_compile (s := ⟨o', files, tables⟩) hv).listed.symm

theorem tables : u.tables = v.tables := by
  obtain ⟨files, tables, o, o', hu, hv⟩ := h
  have htables := (coherent_of_compile (s := ⟨o, files, tables⟩) hu).tables
  exact htables.trans (coherent_of_compile (s := ⟨o', files, tables⟩) hv).tables.symm

end CompiledUnit.Recompiled

namespace Library.Recompiled

variable {l k : Library} (h : l.Recompiled k)

include h

theorem unit (i : Nat) : Option.Rel CompiledUnit.Recompiled l.units[i]? k.units[i]? := by
  obtain ⟨hlen, hget⟩ := List.forall₂_iff_get.1 h.units
  rw [← Array.getElem?_toList, ← Array.getElem?_toList]
  by_cases hi : i < l.units.toList.length
  · rw [List.getElem?_eq_getElem hi, List.getElem?_eq_getElem (hlen ▸ hi)]
    exact .some (hget i hi (hlen ▸ hi))
  · rw [List.getElem?_eq_none (Nat.not_lt.1 hi), List.getElem?_eq_none (hlen ▸ Nat.not_lt.1 hi)]
    exact .none

theorem bind_unit {f : CompiledUnit → Option α} (hf : ∀ u v, u.Recompiled v → f u = f v) (i : Nat) :
    (l.units[i]?).bind f = (k.units[i]?).bind f := by
  have hunit := h.unit i
  generalize l.units[i]? = u?, k.units[i]? = v? at hunit
  cases hunit with
  | none => rfl
  | some huv => exact hf _ _ huv

theorem compiled? (unit : Nat) (name : String) :
    (l.compiled? unit name).isSome = (k.compiled? unit name).isSome := by
  have hunit := h.unit unit
  rw [Library.compiled?, Library.compiled?]
  generalize l.units[unit]? = u?, k.units[unit]? = v? at hunit
  cases hunit with
  | none => rfl
  | some huv => exact huv.template? name

theorem own : l.own = k.own := by
  funext unit table id
  rw [Library.own, Library.own,
    h.bind_unit (f := fun u => u.tables.find? table) fun u v huv => by rw [huv.tables]]

theorem firstLoaded? {f : Nat → CompiledUnit → Option α}
    (hf : ∀ i u v, u.Recompiled v → f i u = f i v) : l.firstLoaded? f = k.firstLoaded? f := by
  rw [Library.firstLoaded?, Library.firstLoaded?, h.loaded]
  exact congrArg (k.loaded.findSome? ·) (funext fun i => h.bind_unit (hf i) i)

theorem registry : Lookup.registry l = Lookup.registry k := by
  have htemplate : l.registered? = k.registered? := by
    funext name
    refine h.firstLoaded? fun i u v huv => ?_
    have hsome := huv.template? name
    generalize u.template? name = c?, v.template? name = d? at hsome
    cases c? <;> cases d? <;> first | rfl | cases hsome
  have hvariant : l.registeredVariant? = k.registeredVariant? := by
    funext name variant
    refine h.firstLoaded? fun i u v huv => ?_
    rw [CompiledUnit.delegate?, CompiledUnit.delegate?, huv.metadata]
  have hdelegate : l.registeredDelegate? = k.registeredDelegate? := by
    funext name variant
    rw [registeredDelegate?, registeredDelegate?, hvariant]
  have helement : l.registeredElement? = k.registeredElement? := by
    funext table id
    refine h.firstLoaded? fun i u v huv => ?_
    rw [CompiledUnit.element?, CompiledUnit.element?, huv.tables]
  rw [Lookup.registry, Lookup.registry, htemplate, hdelegate, helement]

theorem settles {bindings : Table Site Binding} (hb : l.Settles bindings) : k.Settles bindings := by
  intro site b hsite
  rw [← hb site b hsite, Library.binding?, Library.binding?, h.own]
  cases site.target with
  | template name => simp only [h.compiled?]
  | element table id => rfl

end Library.Recompiled

def Env.within (env : Env) (l : Library) : Env := { env with library := l }

section Environments

variable {env : Env} {l : Library} (h : env.library.Recompiled l)

theorem Env.Involves.within {units : Nat → Prop} (hinv : env.Involves units) :
    (env.within l).Involves units where
  alive := hinv.alive
  template := hinv.template
  delegate := hinv.delegate

include h

theorem Env.sources_agree (files : List (List TemplateFile)) :
    (env.sources files).Agrees ((env.within l).sources files) where
  injected := rfl
  maxDepth := rfl
  hosts := h.hosts
  source := rfl
  find := rfl
  describe := by
    funext unit owner table id
    simp only [Sources.describe, Env.sources, Env.within, h.own]
  delegate := rfl

theorem Library.Recompiled.exists_sources : ∃ files,
    (env.sources files).Compiled ∧ ((env.within l).sources files).Compiled := by
  have hunits := h.units
  show ∃ files, List.Forall₂ _ files env.library.units.toList ∧ List.Forall₂ _ files l.units.toList
  generalize env.library.units.toList = us, l.units.toList = vs at hunits
  induction hunits with
  | nil => exact ⟨[], .nil, .nil⟩
  | cons huv _ ih =>
    obtain ⟨files, tables, o, o', hu, hv⟩ := huv
    obtain ⟨rest, hus, hvs⟩ := ih
    exact ⟨files :: rest, .cons ⟨o, tables, hu⟩ hus, .cons ⟨o', tables, hv⟩ hvs⟩

end Environments

/-- Holds of a driven render from a state on that has stopped with a result and has written a text, or has
been put off too often. -/
inductive Written.Driven (x : Written Unit) (s : RenderState) (σ : Schedule)
    (r : Except Stop (Option Nat) × RenderState) : Prop
  | stopped (result : Render.Stopped x.result r.1)
      (text : String.join r.2.chunks = String.join s.chunks ++ x.text)
  | putOff (unfinished : r.1 = .ok none) (waits : ¬ σ.NeverWaits)

/-- Whatever the schedule, a render of compiled templates writes what they mean and ends as they do. -/
theorem Sources.Compiled.driven {env : Env} {files : List (List TemplateFile)}
    (hS : (env.sources files).Compiled) {units : Nat → Prop} (hinv : env.Involves units) {unit : Nat}
    {name : String} (hu : units unit) (hc : env.library.compiled? unit name ≠ none) (params : Record)
    {s : RenderState} (hcap : s.capture = none) (hb : env.library.Settles s.bindings) (σ : Schedule)
    (fuel : Nat) (hacc : (σ.drive env (.compiled unit name) params fuel s).2.Accepted) :
    ((env.sources files).render (env.maxDepth - s.depth) (.compiled unit name) params).Driven s σ
      (σ.drive env (.compiled unit name) params fuel s) := by
  have hmeans := hS.render (Env.sources_fits hS) (env.maxDepth - s.depth) (d := s.depth) rfl
    (.compiled unit name) params
  obtain ⟨deeds, r, hr, hdeeds, hl⟩ | ⟨hnone, hleft⟩ := Schedule.leads_or_waits hS.isCompiled hinv hu
    hc params.asksOnly_all (Record.asksOnly_all _) hcap (Prod.eta _).symm hacc
  · rw [Env.world_settled hb] at hl
    obtain ⟨htext, hend⟩ := hmeans.of_leads hl
    rw [End.of_injective hend] at hr
    refine .stopped hr ?_
    rw [RenderState.chunks_of_deeds hdeeds, String.join_append, htext]
  · exact .putOff hnone fun hσ =>
      Nat.not_lt_zero _ (hleft (.idle fun p n _ => hσ.ready p n) hσ.sink)

/-- Holds of two environments in which a render, if its sink refuses nothing, writes one text and comes to
one end, whatever the schedule. -/
def Env.RendersAs (env env' : Env) (t : TemplateRef) (params : Record) (s : RenderState) : Prop :=
  ∃ x : Written Unit, ∀ (σ : Schedule) (fuel : Nat),
    ((σ.drive env t params fuel s).2.Accepted → x.Driven s σ (σ.drive env t params fuel s)) ∧
    ((σ.drive env' t params fuel s).2.Accepted → x.Driven s σ (σ.drive env' t params fuel s))

/-- With joined texts and without, files compile to units with the same metadata, templates with the same
slots, and at most as many resume points with them; or they fail in the same way; or there is a template
that without them has too many places to pause at. In libraries that differ in no more than that, a render
writes the same text and comes to the same end. -/
theorem CompiledUnit.joins_unseen (files : List TemplateFile) (tables : Table String ElementTable) :
    Compile.Outcomes Shortens (fun e => ∃ t ∈ TemplateFile.declared files, t.Overflows e)
      (compile { joins := true } files tables) (compile { joins := false } files tables) ∧
    ∀ (env : Env) (l : Library), env.library.Recompiled l →
      Lookup.registry env.library = Lookup.registry l ∧ ∀ units, env.Involves units →
        ∀ unit name, units unit → env.library.compiled? unit name ≠ none →
          ∀ (params : Record) (s : RenderState), s.capture = none →
            env.library.Settles s.bindings →
              env.RendersAs (env.within l) (.compiled unit name) params s := by
  refine ⟨compile_outcomes files tables, fun env l hl => ⟨hl.registry, ?_⟩⟩
  intro units hinv unit name hu hc params s hcap hb
  have hc' : l.compiled? unit name ≠ none := by
    rw [← Option.isSome_iff_ne_none] at hc ⊢
    exact (hl.compiled? unit name).symm.trans hc
  obtain ⟨sources, hS, hT⟩ := hl.exists_sources
  refine ⟨(env.sources sources).render (env.maxDepth - s.depth) (.compiled unit name) params,
    fun σ fuel => ⟨hS.driven hinv hu hc params hcap hb σ fuel, fun hacc => ?_⟩⟩
  rw [(Env.sources_agree hl sources).render]
  exact hT.driven hinv.within hu hc' params hcap (hl.settles hb) σ fuel hacc

/-- A template of so many texts. -/
def Template.drone (count : Nat) : Template :=
  { Template.empty "drone" with body := List.replicate count (.text "la ") }

theorem Node.blockScoped_texts (Γ : OpenScopes) (count : Nat) (s : String) :
    BlockScoped Γ (List.replicate count (.text s)) := by
  induction count with
  | zero => exact trivial
  | succ count ih => exact ⟨trivial, ih⟩

theorem Template.drone_wellScoped (count : Nat) : (drone count).WellScoped where
  defaults _ hp := nomatch hp
  state _ hv := nomatch hv
  header := List.nodup_nil
  body := Node.blockScoped_texts _ count _

theorem Template.drone_need_apart (count : Nat) : (drone count).need false = ⟨0, count⟩ := by
  have hblock : Node.blockNeed false false (List.replicate count (.text "la ")) = ⟨0, count⟩ := by
    induction count with
    | zero => rfl
    | succ count ih =>
      rw [List.replicate_succ, Node.blockNeed.eq_def]
      simp [ih, Node.need, Need.text, Need.ext_iff, Nat.add_comm]
  rw [need, drone, hblock]
  exact zero_add _

theorem Template.drone_need_joined (count : Nat) : (drone (count + 1)).need true = ⟨0, 1⟩ := by
  have hpending : Node.blockNeed true true (List.replicate count (.text "la ")) = ⟨0, 1⟩ := by
    induction count with
    | zero => rfl
    | succ count ih =>
      rw [List.replicate_succ, Node.blockNeed.eq_def]
      exact ih
  rw [need, drone, List.replicate_succ, Node.blockNeed.eq_def]
  exact congrArg (⟨0, 0⟩ + ·) hpending

/-- With more texts than there can be resume points, a template compiles only with its texts joined. -/
theorem CompiledUnit.drone_told_apart {count : Nat} (h : Scopes.limit ≤ count) :
    let files : List TemplateFile := [⟨"", [], [.drone (count + 1)]⟩]
    (∃ u, compile { joins := true } files .empty = .ok u) ∧
      compile { joins := false } files .empty = .error (.internal "drone" .tooManyPoints) := by
  intro files
  have hscoped := Template.drone_wellScoped (count + 1)
  obtain ⟨c, hc⟩ := (Template.compiles_iff true _).2
    ⟨hscoped, by rw [Template.drone_need_joined]; decide, by rw [Template.drone_need_joined]; decide⟩
  have hnone : ¬ ∃ c, (Template.drone (count + 1)).compile false = .ok c := by
    rw [Template.compiles_iff, Template.drone_need_apart]
    exact fun h' => Nat.lt_irrefl _ (Nat.lt_of_lt_of_le (Nat.lt_succ_of_le h) h'.2.2)
  have hfails : (Template.drone (count + 1)).compile false =
      .error (.internal "drone" .tooManyPoints) := by
    have houtcomes := (Template.drone (count + 1)).compile_outcomes
    rw [hc] at houtcomes
    generalize (Template.drone (count + 1)).compile false = x at houtcomes hnone
    cases houtcomes with
    | ok _ => exact absurd ⟨_, rfl⟩ hnone
    | own he => exact congrArg Except.error he.1
  refine ⟨⟨_, compile_single rfl hc⟩, ?_⟩
  simp only [files, compile, compileAll, List.flatMap_cons, List.flatMap_nil, List.map_cons,
    List.map_nil, List.append_nil, List.not_mem_nil, if_false, hfails]
  rfl

/-- One text more than there can be resume points is too much without joining. -/
theorem CompiledUnit.joins_seen_drone :
    let files : List TemplateFile := [⟨"", [], [.drone (2 ^ 32 + 1)]⟩]
    (∃ u, compile { joins := true } files .empty = .ok u) ∧
      compile { joins := false } files .empty = .error (.internal "drone" .tooManyPoints) :=
  drone_told_apart (Nat.le_refl _)

def TemplateFile.verse : TemplateFile :=
  ⟨"", [], [{ Template.empty "verse" with
    params := [.required "color"]
    body := [.text "roses ", .text "are ", .print (.var (.param "color"))] }]⟩

def Library.verse (joins : Bool) : Library :=
  ⟨(CompiledUnit.compile { joins } [.verse] .empty).toOption.toArray, #[], []⟩

theorem Library.verse_recompiled : (verse true).Recompiled (verse false) := by
  have hok (joins : Bool) : (CompiledUnit.compile { joins } [.verse] .empty).isOk = true := by
    cases joins <;> decide +kernel
  have hunit (joins : Bool) : ∃ u, CompiledUnit.compile { joins } [.verse] .empty = .ok u ∧
      (verse joins).units.toList = [u] := by
    have hok := hok joins
    rw [verse]
    generalize CompiledUnit.compile { joins } [.verse] .empty = x at hok
    cases x with
    | error e => cases hok
    | ok u => exact ⟨u, rfl, rfl⟩
  obtain ⟨u, hu, hunits⟩ := hunit true
  obtain ⟨v, hv, hunits'⟩ := hunit false
  refine ⟨?_, rfl, rfl⟩
  rw [hunits, hunits']
  exact .cons ⟨[.verse], .empty, ⟨true⟩, ⟨false⟩, hu, hv⟩ .nil

/-- The verse is written in two chunks or in three, and reads the same. -/
theorem CompiledUnit.joins_unseen_verse :
    let env joins := Env.plain (.verse joins) 1
    let verse : TemplateRef := .compiled 0 "verse"
    let params : Record := [("color", .lazy 0 (.str "red"))]
    let s := RenderState.initial (.buffer "")
    let fast : Schedule := ⟨fun _ _ => true, .buffer ""⟩
    let slow : Schedule := ⟨fun _ asked => 0 < asked, .throttled (.of [0])⟩
    let joined := fast.drive (env true) verse params 0 s
    let apart := slow.drive (env false) verse params 2 s
    joined.1.toOption.join = some 0 ∧ joined.2.chunks = ["roses are ", "red"] ∧
      apart.1.toOption.join = some 2 ∧ apart.2.chunks.length = 3 ∧
      String.join apart.2.chunks = String.join joined.2.chunks := by
  intro env verse params s fast slow joined apart
  have hverse : (env true).library.compiled? 0 "verse" ≠ none := by
    rw [← Option.isSome_iff_ne_none]
    decide +kernel
  obtain ⟨x, hx⟩ := ((CompiledUnit.joins_unseen [.verse] .empty).2 (env true) (.verse false)
    Library.verse_recompiled).2 _ (.plain _ _) 0 "verse" trivial hverse params s rfl
    (Library.settles_empty _)
  have hjoined : joined.1.toOption.join = some 0 := by decide +kernel
  have hapart : apart.1.toOption.join = some 2 := by decide +kernel
  have hacc : joined.2.Accepted := by decide +kernel
  have hacc' : apart.2.Accepted := by decide +kernel
  have hdriven : x.Driven s fast joined := (hx fast 0).1 hacc
  have hdriven' : x.Driven s slow apart := (hx slow 2).2 hacc'
  refine ⟨hjoined, by decide +kernel, hapart, by decide +kernel, ?_⟩
  cases hdriven with
  | putOff hnone _ =>
    rw [hnone] at hjoined
    cases hjoined
  | stopped _ htext =>
    cases hdriven' with
    | putOff hnone _ =>
      rw [hnone] at hapart
      cases hapart
    | stopped _ htext' => exact htext'.trans htext.symm

end ResumableTemplates
