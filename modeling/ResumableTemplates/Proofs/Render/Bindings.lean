import ResumableTemplates.Proofs.Compile.Certified
import ResumableTemplates.Proofs.Render.OneShot
import ResumableTemplates.Proofs.Render.Sites

/-! The memory of sites. A site that is asked again and again, each time in another context, answers as if
it had no memory: what its unit has decides where it looks, and that does not change. Main statement: the
answers of any sequence of askings are those of a search made afresh each time, and the site is bound as
its unit says from the first of them on. -/
namespace ResumableTemplates

namespace CompiledUnit

def findAfresh (u : CompiledUnit) (unit : Nat) (env : Env) (name : String) :
    Except RenderError TemplateRef :=
  if (u.template? name).isSome then .ok (.compiled unit name) else env.lookUp name

def describeAfresh (u : CompiledUnit) (env : Env) (template table : String) (id : UInt64) :
    Except RenderError String :=
  match u.tables.find? table with
  | some entries =>
    match entries.find? id with
    | some m => .ok m
    | none => .error (.internal template (.missingElement table id))
  | none => env.lookUpElement table id

def bindingOf (u : CompiledUnit) : SiteTarget → Option Binding
  | .template name => some (if (u.template? name).isSome then .direct else .fallback)
  | .element table id =>
    match u.tables.find? table with
    | some entries => (entries.find? id).map .described
    | none => some .fallback

end CompiledUnit

structure Asking where
  env : Env
  asker : Activation
  use : Use
  state : RenderState

structure Asking.Within (q : Asking) (u : CompiledUnit) (unit : Nat) (template : String) : Prop where
  inUnit : q.asker.unit = unit
  inTemplate : q.asker.template.name = template
  there : q.env.library.units[unit]? = some u
  alive : q.env.isAlive unit = true

def RenderState.withBinding (s : RenderState) (site : Site) : Option Binding → RenderState
  | some b => { s with bindings := s.bindings.insert site b }
  | none => { s with bindings := s.bindings.erase site }

@[simp] theorem RenderState.find?_withBinding (s : RenderState) (site : Site) (b : Option Binding) :
    (s.withBinding site b).bindings.find? site = b := by
  cases b <;> simp [withBinding]

@[simp] theorem RenderState.events_withBinding (s : RenderState) (site : Site) (b : Option Binding) :
    (s.withBinding site b).events = s.events := by
  cases b <;> rfl

/-- What comes of asking a site. -/
structure Answered (α : Type) where
  result : Except Stop α
  binding : Option Binding
  events : List Event

/-- Askings of a site one after another. Each finds the site bound as the one before has left it, and all
else as it may be by then. -/
def Site.askAll (site : Site) (ask : Asking → Render α) :
    Option Binding → List Asking → List (Answered α)
  | _, [] => []
  | b, q :: qs =>
    let (result, s) := ask q (q.state.withBinding site b)
    ⟨result, s.bindings.find? site, s.events⟩ :: askAll site ask (s.bindings.find? site) qs

theorem Site.askAll_eq_map {site : Site} {ask : Asking → Render α} {final : Option Binding}
    {result : Asking → Except Stop α} {noted : Asking → List Event} {qs : List Asking}
    (h : ∀ q ∈ qs, ∀ b, b = none ∨ b = final → ∃ s, ask q (q.state.withBinding site b) = (result q, s) ∧
      s.bindings.find? site = final ∧ s.events = noted q)
    {b : Option Binding} (hb : b = none ∨ b = final) :
    site.askAll ask b qs = qs.map fun q => ⟨result q, final, noted q⟩ := by
  induction qs generalizing b with
  | nil => rfl
  | cons q qs ih =>
    obtain ⟨s, hs, hbound, hevents⟩ := h q List.mem_cons_self b hb
    rw [askAll, List.map_cons, hs]
    simp only [hbound, hevents]
    rw [ih (fun p hp => h p (.tail q hp)) (.inr rfl)]

def CompiledUnit.resolving (u : CompiledUnit) (site : Site) (use : Use) (name : String) : List Event :=
  if (u.template? name).isSome then [.resolve site use name]
  else [.lookup use name, .resolve site use name]

def CompiledUnit.describing (u : CompiledUnit) (table : String) (id : UInt64) : List Event :=
  if (u.tables.find? table).isSome then [] else [.describe table id]

section Answers

variable {u : CompiledUnit} {unit : Nat} {template : String} {q : Asking}
  (h : q.Within u unit template)

include h

theorem Asking.Within.site (index : Nat) (target : SiteTarget) :
    q.asker.site index target = ⟨unit, template, index, target⟩ := by
  rw [Activation.site, h.inUnit, h.inTemplate]

theorem Asking.Within.compiled? (name : String) :
    q.env.library.compiled? unit name = u.template? name := by
  rw [Library.compiled?, h.there, Option.bind_some]

theorem Asking.Within.own (table : String) (id : UInt64) :
    q.env.library.own unit table id = (u.tables.find? table).map (·.find? id) := by
  rw [Library.own, h.there, Option.bind_some]

theorem Asking.Within.binding (index : Nat) (target : SiteTarget) :
    q.env.library.binding? ⟨unit, template, index, target⟩ = u.bindingOf target := by
  cases target with
  | template name =>
    simp only [Library.binding?, h.compiled?, CompiledUnit.bindingOf]
    split <;> rfl
  | element table id =>
    simp only [Library.binding?, h.own, CompiledUnit.bindingOf]
    cases u.tables.find? table with
    | none => rfl
    | some entries => cases hid : entries.find? id <;> simp [hid]

theorem Asking.Within.settled (index : Nat) {target : SiteTarget} {b : Option Binding}
    (hb : b = none ∨ b = u.bindingOf target) (c : Binding)
    (hc : (q.state.withBinding ⟨unit, template, index, target⟩ b).bindings.find?
      ⟨unit, template, index, target⟩ = some c) :
    q.env.library.binding? ⟨unit, template, index, target⟩ = some c := by
  rw [RenderState.find?_withBinding] at hc
  rw [h.binding]
  obtain rfl | rfl := hb
  · cases hc
  · exact hc

theorem Asking.Within.resolves {index : Nat} {name : String} {b : Option Binding}
    (hb : b = none ∨ b = u.bindingOf (.template name)) :
    ∃ s, q.asker.resolve q.env q.use index name
        (q.state.withBinding ⟨unit, template, index, .template name⟩ b) =
        (Render.ending (u.findAfresh unit q.env name), s) ∧
      s.bindings.find? ⟨unit, template, index, .template name⟩ = u.bindingOf (.template name) ∧
      s.events = u.resolving ⟨unit, template, index, .template name⟩ q.use name ++
        q.state.events := by
  have halive : q.env.isAlive q.asker.unit = true := h.inUnit ▸ h.alive
  have hsettled := h.settled index hb
  have hfound : Env.answer name (q.env.found q.asker.unit name) =
      Render.ending (u.findAfresh unit q.env name) := by
    rw [Env.found, h.inUnit, h.compiled?, CompiledUnit.findAfresh, Env.lookUp]
    split
    · rfl
    · cases q.env.lookup.template? name <;> rfl
  have hnoted : q.asker.resolving q.env q.use index name =
      u.resolving ⟨unit, template, index, .template name⟩ q.use name := by
    rw [Activation.resolving, h.inUnit, h.compiled?, h.site, CompiledUnit.resolving]
  have hresolve := Activation.resolve_settled halive q.use index name (h.site _ _ ▸ hsettled)
  rw [hfound, hnoted, h.site] at hresolve
  refine ⟨_, hresolve, (Library.find?_settle hsettled).trans (h.binding _ _), ?_⟩
  rw [RenderState.events_withBinding]

theorem Asking.Within.describes {index : Nat} {table : String} {id : UInt64} {b : Option Binding}
    (hb : b = none ∨ b = u.bindingOf (.element table id)) :
    ∃ s, q.asker.describe q.env index table id
        (q.state.withBinding ⟨unit, template, index, .element table id⟩ b) =
        (Render.ending (u.describeAfresh q.env template table id), s) ∧
      s.bindings.find? ⟨unit, template, index, .element table id⟩ =
        u.bindingOf (.element table id) ∧
      s.events = u.describing table id ++ q.state.events := by
  have halive : q.env.isAlive q.asker.unit = true := h.inUnit ▸ h.alive
  have hsettled := h.settled index hb
  have hfound : (q.env.world .empty).element q.asker.unit q.asker.template.name index table id =
      u.describeAfresh q.env template table id := by
    simp only [Env.world, Table.find?_empty, h.inUnit, h.inTemplate, h.own,
      CompiledUnit.describeAfresh]
    cases u.tables.find? table with
    | none => rfl
    | some entries => cases hid : entries.find? id <;> simp [hid]
  have hnoted : q.asker.describing q.env table id = u.describing table id := by
    rw [Activation.describing, h.inUnit, h.own, CompiledUnit.describing]
    cases u.tables.find? table <;> simp
  have hdescribe := Activation.describe_settled halive index table id (h.site _ _ ▸ hsettled)
  rw [hfound, hnoted, h.site] at hdescribe
  refine ⟨_, hdescribe, (Library.find?_settle hsettled).trans (h.binding _ _), ?_⟩
  rw [RenderState.events_withBinding]

end Answers

/-- However often and in whatever contexts the sites of a unit that is there are asked, they answer as if
they had no memory. From the first asking on they are bound as the unit's contents say, which is not at
all for an element that the unit should have and has not; and a context is asked for nothing that the unit
has. -/
theorem CompiledUnit.bindings_unseen (u : CompiledUnit) (unit : Nat) (template : String) (index : Nat)
    (qs : List Asking) (h : ∀ q ∈ qs, q.Within u unit template) :
    (∀ name, let site : Site := ⟨unit, template, index, .template name⟩
      site.askAll (fun q => q.asker.resolve q.env q.use index name) none qs = qs.map fun q =>
        ⟨Render.ending (u.findAfresh unit q.env name), u.bindingOf (.template name),
          u.resolving site q.use name ++ q.state.events⟩) ∧
    ∀ table id, let site : Site := ⟨unit, template, index, .element table id⟩
      site.askAll (fun q => q.asker.describe q.env index table id) none qs = qs.map fun q =>
        ⟨Render.ending (u.describeAfresh q.env template table id), u.bindingOf (.element table id),
          u.describing table id ++ q.state.events⟩ :=
  ⟨fun _ => Site.askAll_eq_map (fun q hq _ hb => (h q hq).resolves hb) (.inl rfl),
    fun _ _ => Site.askAll_eq_map (fun q hq _ hb => (h q hq).describes hb) (.inl rfl)⟩

/-- A letter asks three times for a card and for two icons, the second time in a context that has a card. The
card is found there, the icon of the letter's own table each time, and the icon that this table lacks never,
so that its site stays unbound. -/
theorem CompiledUnit.bindings_unseen_letter :
    let u : CompiledUnit := { letter with tables := ⟨[("icons", ⟨[(7, "stamp")]⟩)]⟩ }
    let asking (lookup : Lookup) : Asking :=
      ⟨{ Env.plain ⟨#[u], #[.probe "card"], []⟩ 1 with lookup := lookup },
        ⟨0, ⟨"letter", false, .html, ⟨#[], #[], #[], [], []⟩, []⟩, [], #[], none, fun _ => false⟩,
        .call, .initial (.buffer "")⟩
    let found : Lookup := .fixed ⟨[("card", .host 0)]⟩ .empty ⟨[(("icons", 8), "star")]⟩
    let qs := [asking .none, asking found, asking .none]
    let missing : Except Stop TemplateRef := .error (.failure (.templateNotFound "card"))
    let lacking : Except Stop String :=
      .error (.failure (.internal "letter" (.missingElement "icons" 8)))
    (∀ q ∈ qs, q.Within u 0 "letter") ∧
      ((Site.mk 0 "letter" 0 (.template "card")).askAll
        (fun q => q.asker.resolve q.env q.use 0 "card") none qs).map (fun x => (x.result, x.binding)) =
        [(missing, some .fallback), (.ok (.host 0), some .fallback), (missing, some .fallback)] ∧
      ((Site.mk 0 "letter" 0 (.element "icons" 7)).askAll
        (fun q => q.asker.describe q.env 0 "icons" 7) none qs).map (fun x => (x.result, x.binding)) =
        List.replicate 3 (.ok "stamp", some (.described "stamp")) ∧
      ((Site.mk 0 "letter" 0 (.element "icons" 8)).askAll
        (fun q => q.asker.describe q.env 0 "icons" 8) none qs).map (fun x => (x.result, x.binding)) =
        List.replicate 3 (lacking, none) := by
  intro u asking found qs missing lacking
  have hwithin : ∀ q ∈ qs, q.Within u 0 "letter" := by
    simp only [qs, List.forall_mem_cons]
    exact ⟨⟨rfl, rfl, rfl, rfl⟩, ⟨rfl, rfl, rfl, rfl⟩, ⟨rfl, rfl, rfl, rfl⟩,
      fun q hq => absurd hq List.not_mem_nil⟩
  obtain ⟨htemplates, helements⟩ := bindings_unseen u 0 "letter" 0 qs hwithin
  refine ⟨hwithin, ?_, ?_, ?_⟩
  · rw [htemplates]
    rfl
  · rw [helements]
    rfl
  · rw [helements]
    rfl

end ResumableTemplates
