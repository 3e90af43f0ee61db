import ResumableTemplates.Proofs.Meaning.Templates
import ResumableTemplates.Proofs.Render.Acceptance
import ResumableTemplates.Proofs.Render.Sites

/-! The compiler is correct. Main statement: a render of compiled templates that is given no lazy
values, into a sink that takes all, writes what their sources mean and comes to the same end. -/
namespace ResumableTemplates

theorem CompilesTo.isSome {source : Option Template} {found : Option CompiledTemplate}
    (h : CompilesTo source found) : source.isSome = found.isSome := by
  cases h <;> rfl

namespace Env

theorem world_settled {env : Env} {bindings : Table Site Binding}
    (h : env.library.Settles bindings) : env.world bindings = env.world .empty := by
  have hsite : ∀ unit template index name b,
      bindings.find? ⟨unit, template, index, .template name⟩ = some b →
        b = if (env.library.compiled? unit name).isSome then .direct else .fallback := by
    intro unit template index name b hb
    have hfits := h ⟨unit, template, index, .template name⟩ b hb
    simp only [Library.binding?] at hfits
    split at hfits <;> cases hfits
    · rename_i hsome
      rw [if_pos hsome]
    · rename_i hnone
      rw [if_neg hnone]
  have hfound : ∀ unit template index name,
      (env.world bindings).template unit template index name =
          (env.world .empty).template unit template index name ∧
        (env.world bindings).isLookedUp unit template index name =
          (env.world .empty).isLookedUp unit template index name := by
    intro unit template index name
    simp only [world, Table.find?_empty]
    cases hb : bindings.find? ⟨unit, template, index, .template name⟩ with
    | none => exact ⟨rfl, rfl⟩
    | some b =>
      rw [hsite _ _ _ _ b hb]
      cases env.library.compiled? unit name <;> exact ⟨rfl, rfl⟩
  have helement : (env.world bindings).element = (env.world .empty).element := by
    funext unit template index table id
    have hfits := h ⟨unit, template, index, .element table id⟩
    simp only [world, Table.find?_empty]
    cases hb : bindings.find? ⟨unit, template, index, .element table id⟩ with
    | none => rfl
    | some b =>
      have hfits := hfits b hb
      simp only [Library.binding?] at hfits
      rcases ho : env.library.own unit table id with _ | _ | m <;> rw [ho] at hfits <;>
        cases hfits <;> rfl
  rw [world, World.mk.injEq]
  refine ⟨rfl, rfl, rfl, rfl, ?_, helement, ?_⟩
  · funext unit template index name
    exact (hfound unit template index name).1
  · funext unit template index name
    exact (hfound unit template index name).2

def sources (env : Env) (files : List (List TemplateFile)) : Sources :=
  ⟨files, env.library, env.lookup, env.maxDepth, env.injected⟩

theorem sources_fits {env : Env} {files : List (List TemplateFile)}
    (hS : (env.sources files).Compiled) : (env.sources files).Fits (env.world .empty) where
  library := rfl
  lookup := rfl
  maxDepth := rfl
  injected := rfl
  template unit template index name := by
    have hsome : ((env.sources files).source? unit name).isSome =
        (env.library.compiled? unit name).isSome := (hS.source unit name).isSome
    simp only [world, Table.find?_empty, Sources.find, hsome]
    rfl
  element unit template index table id := by
    simp only [world, Table.find?_empty, Sources.describe]
    rfl

end Env

theorem Renders.of_leads {w : World} {d : Nat} {t : TemplateRef} {params : Record} {x : Written Unit}
    (h : Renders w d t params x) {deeds : List Deed} {e : End}
    (hl : Leads w d (.template t none params) deeds e) :
    String.join (Deed.texts deeds) = x.text ∧ e = .of x.result := by
  cases h with
  | done hl' hx =>
    obtain ⟨rfl, rfl⟩ := hl.deterministic hl'
    exact ⟨hx, rfl⟩
  | failed hl' hx =>
    obtain ⟨rfl, rfl⟩ := hl.deterministic hl'
    exact ⟨hx, rfl⟩

/-- Holds of a render from a state on that has written a text, in chunks, and has come to a result. -/
structure Written.Rendered (x : Written Unit) (s : RenderState)
    (r : Except Stop Outcome × RenderState) : Prop where
  result : r.1 = Render.ending (x.result.map fun _ => .done)
  text : ∃ chunks, r.2.chunks = s.chunks ++ chunks ∧ String.join chunks = x.text

/-- A render of compiled templates that is given no lazy values, into a sink that takes all, writes what
they mean as far as that goes, and then is done or fails as they do. -/
theorem Sources.Compiled.refined {env : Env} {files : List (List TemplateFile)}
    (hS : (env.sources files).Compiled) {units : Nat → Prop} (hinv : env.Involves units)
    {t : TemplateRef} (ht : t.Within units) {params : Record} (hp : Record.All Value.IsPlain params)
    (hi : Record.All Value.IsPlain env.injected) {s : RenderState} (hs : s.Taking)
    (hcap : s.capture = none) (hb : env.library.Settles s.bindings) :
    ((env.sources files).render (env.maxDepth - s.depth) t params).Rendered s
      (Render.start env t params s) := by
  obtain ⟨cert⟩ := hS.isCompiled.certificate
  let S : Setting env.library fun _ _ _ => True :=
    ⟨env, .empty, cert, units, fun _ => False, rfl, hinv.confines, hi⟩
  have hmeans := hS.render (Env.sources_fits hS) (env.maxDepth - s.depth) (d := s.depth) rfl t params
  have hleads : S.Outermost s.depth t params (Leads S.world s.depth (.template t none params))
      { s with holdsSink := false } (Render.start env t params s) :=
    S.start_leads ht hp (s := { s with holdsSink := false }) (Env.world_settled hb) rfl
  have htaking := hs.start env t params
  generalize Render.start env t params s = r at hleads htaking ⊢
  cases hleads with
  | done hw hl =>
    obtain ⟨htext, hend⟩ := hmeans.of_leads hl
    have hresult : .ok () = Written.result _ := End.of_injective hend
    exact ⟨by rw [← hresult]; rfl, _,
      RenderState.chunks_of_deeds (hw.drove hcap).deeds, htext⟩
  | failed hw hl =>
    obtain ⟨htext, hend⟩ := hmeans.of_leads hl
    have hresult : .error _ = Written.result _ := End.of_injective hend
    exact ⟨by rw [← hresult]; rfl, _,
      RenderState.chunks_of_deeds (hw.drove hcap).deeds, htext⟩
  | broken _ hbreak =>
    obtain ⟨e, -, href⟩ := hbreak.sink hinv.alive
    exact absurd href htaking.accepted.not_refused
  | suspended hw hpay => exact absurd (hpay (.idle fun _ _ => False.elim) hs.sink.neverWaits) (Nat.not_lt_zero _)

/-- A file of two templates: a list of names behind a greeting, and an entry of the list. -/
def TemplateFile.roll : TemplateFile :=
  ⟨"", [], [
    { Template.empty "roll" with
      params := [.required "names"]
      body := [
        .bind "line" (.literal (.str "dear ")),
        .each "name" (some "i") (.var (.param "names"))
          [.bind "line" (.binary .add (.var (.bound "line")) (.var (.bound "name"))),
            .call (.template "entry") .none
              [.content "line" .html [.print (.var (.bound "line"))],
                .value "number" (.var (.bound "i"))]]
          (some [.text "nobody"]),
        .print (.var (.bound "line"))] },
    { Template.empty "entry" with
      params := [.required "line", .required "number"]
      body := [
        .print (.var (.param "number")), .text ": ", .print (.var (.param "line")), .text "; "] }]⟩

def Library.roll : Library := ⟨(CompiledUnit.compile {} [.roll] .empty).toOption.toArray, #[], []⟩

/-- The names in the body of the loop are gone behind it. -/
theorem Sources.Compiled.refined_roll :
    let env := Env.plain .roll 1
    let params : Record := [("names", .list [.str "Ada", .str "Bob"])]
    let s := RenderState.initial (.buffer "")
    let meaning := (env.sources [[.roll]]).render (env.maxDepth - s.depth) (.compiled 0 "roll") params
    (env.sources [[.roll]]).Compiled ∧ Record.All Value.IsPlain params ∧ s.Taking ∧
      meaning.text = "0: dear Ada; 1: dear Bob; dear " ∧ meaning.result.isOk = true ∧
      meaning.Rendered s (Render.start env (.compiled 0 "roll") params s) := by
  intro env params s meaning
  have hcompiled : (env.sources [[.roll]]).Compiled := by
    have hok : (CompiledUnit.compile {} [.roll] .empty).isOk = true := by decide +kernel
    obtain ⟨u, hu⟩ : ∃ u, CompiledUnit.compile {} [.roll] .empty = .ok u := by
      cases h : CompiledUnit.compile {} [.roll] .empty with
      | error e =>
        rw [h] at hok
        cases hok
      | ok u => exact ⟨u, rfl⟩
    have hunits : Library.roll.units.toList = [u] := by
      rw [Library.roll, hu]
      rfl
    show List.Forall₂ _ _ Library.roll.units.toList
    rw [hunits]
    exact .cons ⟨{}, .empty, hu⟩ .nil
  have hparams : Record.All Value.IsPlain params := by
    intro f hf
    obtain rfl := List.mem_singleton.1 hf
    exact ⟨trivial, trivial, trivial⟩
  have hs : s.Taking := ⟨trivial, fun _ he => by cases he⟩
  have htext : meaning.text = "0: dear Ada; 1: dear Bob; dear " := by decide +kernel
  have hresult : meaning.result.isOk = true := by decide +kernel
  have hb : Library.roll.Settles s.bindings := Library.settles_empty _
  have hwithin : TemplateRef.Within (fun _ => True) (.compiled 0 "roll") := trivial
  have hrendered : meaning.Rendered s (Render.start env (.compiled 0 "roll") params s) :=
    hcompiled.refined (.plain .roll 1) hwithin hparams (fun _ h => by cases h) hs rfl hb
  clear_value meaning
  exact ⟨hcompiled, hparams, hs, htext, hresult, hrendered⟩

end ResumableTemplates
