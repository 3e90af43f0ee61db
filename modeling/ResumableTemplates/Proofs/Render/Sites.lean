import ResumableTemplates.Proofs.Render.Effects

/-! What sites find while the unit of their template is there. It depends on nothing but that unit and
the lookup: a site that has found something before finds the same again, and notes the same. -/
namespace ResumableTemplates

def Library.binding? (lib : Library) (site : Site) : Option Binding :=
  match site.target with
  | .template name => if (lib.compiled? site.unit name).isSome then some .direct else some .fallback
  | .element table id =>
    match lib.own site.unit table id with
    | some (some m) => some (.described m)
    | some none => none
    | none => some .fallback

def Library.Settles (lib : Library) (bindings : Table Site Binding) : Prop :=
  ∀ site b, bindings.find? site = some b → lib.binding? site = some b

theorem Library.settles_empty (lib : Library) : lib.Settles .empty :=
  fun _ _ h => by rw [Table.find?_empty] at h; cases h

theorem Library.Settles.insert {lib : Library} {bindings : Table Site Binding}
    (h : lib.Settles bindings) {site : Site} {b : Binding} (hb : lib.binding? site = some b) :
    lib.Settles (bindings.insert site b) := by
  intro other c hc
  rw [Table.find?_insert] at hc
  split at hc
  · rename_i he
    cases hc
    exact he ▸ hb
  · exact h other c hc

def Library.settle (lib : Library) (bindings : Table Site Binding) (site : Site) :
    Table Site Binding :=
  match bindings.find? site, lib.binding? site with
  | none, some b => bindings.insert site b
  | _, _ => bindings

theorem Library.settle_eq (lib : Library) (bindings : Table Site Binding) (site : Site) :
    lib.settle bindings site = bindings ∨ ∃ b, lib.binding? site = some b ∧
      lib.settle bindings site = bindings.insert site b := by
  unfold settle
  split
  · rename_i b _ hb
    exact .inr ⟨b, hb, rfl⟩
  · exact .inl rfl

theorem Library.Settles.settle {lib : Library} {bindings : Table Site Binding}
    (h : lib.Settles bindings) (site : Site) : lib.Settles (lib.settle bindings site) := by
  obtain he | ⟨b, hb, he⟩ := lib.settle_eq bindings site
  · rwa [he]
  · rw [he]
    exact h.insert hb

/-- A site that has found nothing but what it finds has found that in the end. -/
theorem Library.find?_settle {lib : Library} {bindings : Table Site Binding} {site : Site}
    (h : ∀ b, bindings.find? site = some b → lib.binding? site = some b) :
    (lib.settle bindings site).find? site = lib.binding? site := by
  unfold settle
  cases hb : bindings.find? site with
  | some b => simp only [hb, h b hb]
  | none => cases hl : lib.binding? site <;> simp [hb]

theorem Library.Settles.of_units {lib lib' : Library} {bindings : Table Site Binding}
    (h : lib.Settles bindings) (hunits : lib'.units = lib.units) : lib'.Settles bindings := by
  intro site b hb
  have hcompiled : lib'.compiled? = lib.compiled? := by
    funext unit name
    rw [Library.compiled?, Library.compiled?, hunits]
  have hown : lib'.own = lib.own := by
    funext unit table id
    rw [Library.own, Library.own, hunits]
  rw [← h site b hb, Library.binding?, Library.binding?, hcompiled, hown]

def Env.found (env : Env) (unit : Nat) (name : String) : Option TemplateRef :=
  if (env.library.compiled? unit name).isSome then some (.compiled unit name)
  else env.lookup.template? name

def Env.answer (name : String) : Option TemplateRef → Except Stop TemplateRef
  | some t => .ok t
  | none => .error (.failure (.templateNotFound name))

namespace Activation

variable {env : Env} {a : Activation} {s : RenderState}

def resolving (env : Env) (a : Activation) (use : Use) (i : Nat) (name : String) : List Event :=
  if (env.library.compiled? a.unit name).isSome then [.resolve (a.site i (.template name)) use name]
  else [.lookup use name, .resolve (a.site i (.template name)) use name]

def describing (env : Env) (a : Activation) (table : String) (id : UInt64) : List Event :=
  if env.library.own a.unit table id = none then [.describe table id] else []

theorem lookUp_found (env : Env) (use : Use) (name : String) (s : RenderState) :
    lookUp env use name s = (Env.answer name (env.lookup.template? name),
      { s with events := .lookup use name :: s.events }) := by
  rw [lookUp, Render.bind_apply, Render.note_apply]
  cases env.lookup.template? name <;> rfl

theorem lookUpElement_found (env : Env) (table : String) (id : UInt64) (s : RenderState) :
    lookUpElement env table id s = (Render.ending (env.lookUpElement table id),
      { s with events := .describe table id :: s.events }) := by
  rw [lookUpElement, Render.bind_apply, Render.note_apply, Env.lookUpElement]
  cases env.lookup.element? table id <;> rfl

/-- A site finds the template that its name stands for. -/
theorem resolve_settled (halive : env.isAlive a.unit = true) (use : Use) (i : Nat) (name : String)
    (hs : ∀ b, s.bindings.find? (a.site i (.template name)) = some b →
      env.library.binding? (a.site i (.template name)) = some b) :
    a.resolve env use i name s = (Env.answer name (env.found a.unit name),
      { s with
        bindings := env.library.settle s.bindings (a.site i (.template name))
        events := a.resolving env use i name ++ s.events }) := by
  have hbinding : env.library.binding? (a.site i (.template name)) =
      if (env.library.compiled? a.unit name).isSome then some .direct else some .fallback := rfl
  rw [hbinding] at hs
  have hthere : ∀ u : RenderState, a.isThere env u a.unit name = true := fun u => by
    simp [isThere, halive]
  simp only [resolve, Render.bind_apply, Render.note_apply, Render.get_apply, resolving, Env.found,
    Library.settle, hbinding]
  cases hb : s.bindings.find? (a.site i (.template name)) with
  | some b =>
    have hfits := hs b hb
    cases h : (env.library.compiled? a.unit name).isSome <;> rw [h] at hfits <;> cases hfits
    · simp [lookUp_found]
    · simp [hthere, Env.answer]
  | none =>
    cases h : (env.library.compiled? a.unit name).isSome
    · simp [halive, bind, Render.bind_apply, lookUp_found]
    · simp [halive, bind, Render.bind_apply, Env.answer]

theorem describe_settled (halive : env.isAlive a.unit = true) (i : Nat) (table : String)
    (id : UInt64) (hs : ∀ b, s.bindings.find? (a.site i (.element table id)) = some b →
      env.library.binding? (a.site i (.element table id)) = some b) :
    a.describe env i table id s =
      (Render.ending ((env.world .empty).element a.unit a.template.name i table id),
        { s with
          bindings := env.library.settle s.bindings (a.site i (.element table id))
          events := a.describing env table id ++ s.events }) := by
  have hbinding : env.library.binding? (a.site i (.element table id)) =
      match env.library.own a.unit table id with
      | some (some m) => some (.described m)
      | some none => none
      | none => some .fallback := rfl
  have hown : ((env.library.units[a.unit]?).bind (·.tables.find? table)).map (·.find? id) =
      env.library.own a.unit table id := rfl
  simp only [describe, Render.bind_apply, Render.get_apply, describing, Env.world, Table.find?_empty,
    hown, Library.settle, hbinding]
  cases hb : s.bindings.find? (a.site i (.element table id)) with
  | some b =>
    have hfits := hs b hb
    rw [hbinding] at hfits
    rcases ho : env.library.own a.unit table id with _ | _ | m <;> rw [ho] at hfits <;> cases hfits
    · simp [lookUpElement_found]
    · simp
  | none =>
    rcases ho : env.library.own a.unit table id with _ | _ | m
    · simp [halive, bind, Render.bind_apply, lookUpElement_found]
    · simp [halive, contradiction]
    · simp [halive, bind, Render.bind_apply]

end Activation

end ResumableTemplates
