import ResumableTemplates.Proofs.Compile.Division
import ResumableTemplates.Proofs.Compile.Injected
import ResumableTemplates.Proofs.Meaning.Bodies

/-! Compiled templates do what they mean, first their header and then their body, with all templates
that they call, by induction on how deep calls nest. -/
namespace ResumableTemplates

open CompileState

section Header

variable {S : Sources} {w : World} {unit : Nat} {owner : String} {t : CompiledTemplate} {ρ : Names}
  {a : Activation} {σ τ : CompileState}

theorem CompileState.Heads.fills {v : VarRef} {slot : Nat} (h : σ.Heads v.name v.kind slot τ)
    (hσ : σ.scopes.Named) (ha : a.Stands unit t σ.scopes ρ)
    (hroom : τ.scopes.slots.size ≤ a.locals.size) (u : Value) :
    ∃ b, a.set slot (.value u) = .ok b ∧ b.Stands unit t τ.scopes (ρ.bind v u) ∧
      b.locals.size = a.locals.size := by
  obtain ⟨type, halloc⟩ := h.allocated
  have hslot := halloc.slot
  have hsize := halloc.size
  obtain ⟨b, hb, hab, hv, -⟩ := Activation.Gains.set (Nat.le_of_eq hslot.symm)
    (show slot < a.locals.size by omega) (fun m (h : Output.sink = .buffer m) => by cases h)
    (.value u)
  exact ⟨b, hb, (ha.moved hab (Nat.le_refl _) trivial (.refl _)).declared hσ halloc hv, hab.room⟩

theorem Compile.param_means {p : Param} {b : ParamBinding} (h : (param p).Yields σ b τ) :
    p.meaning S unit owner ρ = .ok (b.valueIn S.injected ρ.params) := by
  obtain ⟨-, hname, hinjected, hdefault, hnone⟩ := param_yields h
  have hfallback : p.default.elim (.ok .null) (·.meaning S unit owner ρ) =
      .ok (b.default.getD .null) := by
    cases hd : p.default with
    | none => rw [hdefault, hd]; rfl
    | some e =>
      cases hf : e.fold? with
      | none => cases hd.symm.trans (hnone (by rw [hd]; exact hf))
      | some v =>
        rw [hdefault, hd, Option.bind_some, hf]
        exact Expr.meaning_of_fold? hf
  have hmeaning : p.meaning S unit owner ρ =
      let v := Record.read (if p.isInjected then S.injected else ρ.params) p.name
      if v.isNull then p.default.elim (.ok .null) (·.meaning S unit owner ρ) else .ok v := by
    rw [Param.meaning]
    cases p.default <;> rfl
  rw [hmeaning, hfallback, ParamBinding.valueIn, hname, hinjected, Record.read]
  cases Record.field? (if p.isInjected then S.injected else ρ.params) p.name with
  | none => rfl
  | some v =>
    dsimp only [Option.getD_some]
    by_cases hv : v.isNull
    · rw [if_pos hv, if_pos hv]
    · rw [if_neg hv, if_neg hv]

theorem Compile.params_mean (hw : S.Fits w) (owner : String) {ps : List Param}
    {bs : List ParamBinding} (h : (params ps).Yields σ bs τ) (hσ : σ.scopes.Named) (ha : a.Stands unit t σ.scopes ρ)
    (hroom : τ.scopes.slots.size ≤ a.locals.size) :
    ∃ b ρ', a.fillParams w.injected bs = .ok b ∧ Template.bindParams S unit owner ρ ps = .ok ρ' ∧
      b.Stands unit t τ.scopes ρ' ∧ b.locals.size = a.locals.size := by
  induction ps generalizing σ bs a ρ with
  | nil =>
    obtain ⟨rfl, rfl⟩ := yields_pure.1 h
    exact ⟨a, ρ, rfl, rfl, ha, rfl⟩
  | cons p ps ih =>
    obtain ⟨b, υ, hb, h⟩ := yields_bind.1 h
    obtain ⟨bs, _, hbs, h⟩ := yields_bind.1 h
    obtain ⟨rfl, rfl⟩ := yields_pure.1 h
    have hheads := (param_yields hb).1
    have hgrows := (params_headers hbs).grows
    have hυ := hheads.named hσ
    rw [← p.ref_name, ← p.ref_kind] at hheads
    obtain ⟨c, hc, hstands, hsize⟩ := hheads.fills hσ ha (Nat.le_trans hgrows.size_le hroom)
      (b.valueIn S.injected ρ.params)
    obtain ⟨e, ρ', he, hρ', hfilled, hsize'⟩ := ih hbs hυ hstands (hsize ▸ hroom)
    refine ⟨e, ρ', ?_, ?_, hfilled, hsize'.trans hsize⟩
    · rw [Activation.fillParams, hw.injected, ha.params, hc, Except.ok_bind, ← hw.injected]
      exact he
    · rw [Template.bindParams, param_means hb, Except.ok_bind]
      exact hρ'

theorem Compile.state_means (owner : String) {vs : List StateVar} {bs : List StateBinding}
    (h : (stateVars vs).Yields σ bs τ) (hσ : σ.scopes.Named) (ha : a.Stands unit t σ.scopes ρ)
    (hroom : τ.scopes.slots.size ≤ a.locals.size) :
    ∃ b ρ', a.fillState bs = .ok b ∧ Template.bindState S unit owner ρ vs = .ok ρ' ∧
      b.Stands unit t τ.scopes ρ' ∧ b.locals.size = a.locals.size := by
  induction vs generalizing σ bs a ρ with
  | nil =>
    obtain ⟨rfl, rfl⟩ := yields_pure.1 h
    exact ⟨a, ρ, rfl, rfl, ha, rfl⟩
  | cons v vs ih =>
    obtain ⟨b, υ, hb, h⟩ := yields_bind.1 h
    obtain ⟨bs, _, hbs, h⟩ := yields_bind.1 h
    obtain ⟨rfl, rfl⟩ := yields_pure.1 h
    obtain ⟨hheads, hvalue⟩ := stateVar_yields hb
    have hgrows := (stateVars_headers hbs).grows
    obtain ⟨c, hc, hstands, hsize⟩ := CompileState.Heads.fills (v := .state v.name) hheads hσ ha
      (Nat.le_trans hgrows.size_le hroom) b.value
    obtain ⟨e, ρ', he, hρ', hfilled, hsize'⟩ := ih hbs (hheads.named hσ) hstands (hsize ▸ hroom)
    refine ⟨e, ρ', ?_, ?_, hfilled, hsize'.trans hsize⟩
    · rw [Activation.fillState, hc, Except.ok_bind]
      exact he
    · rw [Template.bindState, Expr.meaning_of_fold? hvalue, Except.ok_bind]
      exact hρ'

end Header

section Templates

variable {S : Sources} {run : TemplateRef → Record → Written Unit} {w : World} {d unit : Nat}
  {joins : Bool} {src : Template} {t : CompiledTemplate}

theorem Template.Parts.fresh (hw : S.Fits w) {calls : Array (Nat × String)} {υ χ ψ : CompileState}
    (h : src.Parts t.procedure calls υ χ ψ) (unit : Nat) (params : Record) (owner : String) :
    χ.scopes.Named ∧ ∃ a ρ ρ', w.fresh unit t params = .ok a ∧
      Template.bindParams S unit owner ⟨params, []⟩ src.params = .ok ρ ∧
      Template.bindState S unit owner ρ src.state = .ok ρ' ∧ a.Stands unit t χ.scopes ρ' ∧
      a.locals.size = t.procedure.layout.size := by
  let locals := Array.replicate t.procedure.layout.size Local.unset
  let a : Activation := ⟨unit, t, params, locals, none, fun _ => false⟩
  have ha : a.Stands unit t src.start.scopes ⟨params, []⟩ := ⟨rfl, rfl, rfl, rfl, fun _ => rfl⟩
  have hlayout : ψ.scopes.slots.size = a.locals.size := by
    rw [← h.layout]
    exact Array.size_replicate.symm
  have hχ : χ.scopes.slots.size ≤ a.locals.size := hlayout ▸ h.body.grows.size_le
  have hυ := (Compile.params_headers h.params).named src.start_named
  have hstate := Compile.stateVars_headers h.state
  obtain ⟨b, ρ, hb, hρ, hstands, hsize⟩ := Compile.params_mean hw owner h.params src.start_named ha
    (Nat.le_trans hstate.grows.size_le hχ)
  obtain ⟨c, ρ', hc, hρ', hfilled, hsize'⟩ :=
    Compile.state_means owner h.state hυ hstands (hsize ▸ hχ)
  refine ⟨hstate.named hυ, c, ρ, ρ', ?_, hρ, hρ', hfilled, ?_⟩
  · rw [World.fresh, Activation.start, hb]
    exact hc
  · rw [hsize', hsize]
    exact Array.size_replicate

/-- What the ops of a template do, the template renders. -/
theorem Does.renders {α : Type} {name : String} {params : Record} {size q : Nat} {a : Activation}
    {goal : α → Activation → Prop} {x : Written α} (h : Does w d size .sink 0 q a goal x)
    (hend : ∀ v b, goal v b → b.template.procedure.ops[q]? = none)
    (ht : w.library.compiled? unit name = some t) (ha : w.fresh unit t params = .ok a) :
    Renders w d (.compiled unit name) params (x >>= fun _ => Pure.pure ()) := by
  cases h with
  | failed hl hx => exact .failed (.fresh ht ha hl) hx
  | on hpath hx hab hv =>
    rw [Written.bind_of_ok]
    refine .done (.fresh ht ha (hpath.leads (.finished (hend _ _ hv)))) ?_
    rw [List.append_nil]
    exact hx.trans String.append_empty.symm

/-- A compiled template does what its source means. -/
theorem Template.compile_renders (hw : S.Fits w) (hrun : Serves w d run)
    (h : src.compile joins = .ok t) {name : String} (ht : w.library.compiled? unit name = some t)
    (params : Record) :
    Renders w d (.compiled unit name) params (src.interpret S run unit params) := by
  obtain ⟨hname, υ, χ, ψ, calls, hparts, -⟩ := compile_ok h
  obtain ⟨hχ, a, ρ, ρ', ha, hρ, hρ', hstands, hsize⟩ := hparts.fresh hw unit params src.name
  have hposition : χ.position = 0 := hparts.header.1.position
  have hstart : (Fragment.block .sink "" src.body).Starts unit t .sink .null ρ' a χ
      t.procedure.ops.toList ψ := by
    refine ⟨rfl, hχ, ?_, fun i op hi => ?_, hstands, trivial, trivial⟩
    · exact Nat.le_of_eq (by rw [hsize, hparts.layout])
    · rw [hposition, Nat.zero_add, ← Array.getElem?_toList]
      exact hi
  have hbody := hparts.body.means hw hrun .sink .null ρ' a hstart
  rw [Template.interpret, hρ, Written.lift_ok, pure_bind, hρ', Written.lift_ok, pure_bind]
  rw [hposition, hname] at hbody
  have hblock : (Fragment.block .sink "" src.body).interpret S run unit src.name .null ρ' =
      Node.interpretBlock S run unit src.name src.body ρ' := pure_bind _ _
  rw [hblock] at hbody
  refine hbody.renders (fun _ b hb => ?_) ht ha
  rw [hb.1.template, hparts.body.position, hposition, Nat.zero_add]
  exact Array.getElem?_eq_none (Nat.le_refl _)

end Templates

section Libraries

variable {S : Sources} {w : World}

def Sources.Compiled (S : Sources) : Prop :=
  List.Forall₂ (fun files u => ∃ o tables, CompiledUnit.compile o files tables = .ok u)
    S.files S.library.units.toList

inductive CompilesTo : Option Template → Option CompiledTemplate → Prop
  | none : CompilesTo none none
  | some : src.compile joins = .ok t → CompilesTo (some src) (some t)

theorem CompiledUnit.template?_compiles {o : CompileOptions} {files : List TemplateFile}
    {tables : Table String ElementTable} {u : CompiledUnit} (h : compile o files tables = .ok u)
    (name : String) :
    CompilesTo ((files.flatMap (·.templates)).find? (·.name = name)) (u.template? name) := by
  obtain ⟨cs, hcs, htemplates, -, -⟩ := compile_ok h
  have hsources : (TemplateFile.templatesOf files).map (·.2) = files.flatMap (·.templates) := by
    simp [TemplateFile.templatesOf, List.map_flatMap, Function.comp_def]
  rw [template?, htemplates, ← hsources]
  clear hsources htemplates
  generalize TemplateFile.templatesOf files = sources at hcs
  induction hcs with
  | nil => exact .none
  | @cons source c _ _ hc _ ih =>
    rw [List.map_cons, List.map_cons, List.find?_cons, List.find?_cons, (Template.compile_ok hc.1).1]
    by_cases hname : source.2.name = name
    · rw [decide_eq_true hname]
      exact .some hc.1
    · rw [decide_eq_false hname]
      exact ih

theorem Sources.Compiled.source (h : S.Compiled) (unit : Nat) (name : String) :
    CompilesTo (S.source? unit name) (S.library.compiled? unit name) := by
  obtain ⟨hlen, hget⟩ := List.forall₂_iff_get.1 h
  have hsize : S.files.length = S.library.units.size := hlen
  rw [Sources.source?, Library.compiled?]
  by_cases hlt : unit < S.files.length
  · obtain ⟨o, tables, hc⟩ := hget unit hlt (hlen ▸ hlt)
    rw [List.getElem?_eq_getElem hlt, Array.getElem?_eq_getElem (hsize ▸ hlt)]
    exact CompiledUnit.template?_compiles hc name
  · rw [List.getElem?_eq_none (Nat.not_lt.1 hlt), Array.getElem?_eq_none (hsize ▸ Nat.not_lt.1 hlt)]
    exact .none

theorem Sources.Compiled.isCompiled (h : S.Compiled) : S.library.IsCompiled := by
  intro u hu
  obtain ⟨files, -, o, tables, hc⟩ := exists_of_forall₂_left (List.Forall₂.flip h) hu.val
  exact ⟨o, files, tables, hc⟩

/-- Templates of all kinds do what they mean, if their callees do. -/
theorem Sources.Compiled.renders (hS : S.Compiled) (hw : S.Fits w) {d : Nat}
    {run : TemplateRef → Record → Written Unit} (hrun : Serves w d run) (t : TemplateRef)
    (params : Record) : Renders w d t params (S.renderTemplate run t params) := by
  cases t with
  | compiled unit name =>
    have hsource := hS.source unit name
    have hlib : w.library.compiled? unit name = S.library.compiled? unit name := by rw [hw.library]
    rw [Sources.renderTemplate]
    generalize S.source? unit name = source, S.library.compiled? unit name = found at hsource hlib
    cases hsource with
    | none => exact .failed (.missing hlib) rfl
    | some hc => exact Template.compile_renders hw hrun hc hlib params
  | host i =>
    have hlib : w.library.hosts[i]? = S.library.hosts[i]? := by rw [hw.library]
    rw [Sources.renderTemplate]
    generalize S.library.hosts[i]? = host at hlib
    cases host with
    | none => exact .failed (.noHost hlib) rfl
    | some h =>
      refine .done (.host hlib) ?_
      rw [Deed.texts_write]
      cases h <;> rfl

/-- Templates do what they mean, by induction on how many levels of calls are left. -/
theorem Sources.Compiled.render (hS : S.Compiled) (hw : S.Fits w) (levels : Nat) {d : Nat}
    (hd : w.maxDepth - d = levels) (t : TemplateRef) (params : Record) :
    Renders w d t params (S.render levels t params) := by
  -- With no level left every call is too deep; with one more the callees mean what they do below it.
  induction levels generalizing d t params with
  | zero =>
    refine hS.renders hw ⟨fun hlt => absurd hlt (by omega), fun _ t params => ?_⟩ t params
    rw [hw.library, hw.maxDepth]
  | succ levels ih =>
    refine hS.renders hw ⟨fun _ t params => ih (by omega) t params, fun hle => absurd hle (by omega)⟩
      t params

end Libraries

end ResumableTemplates
