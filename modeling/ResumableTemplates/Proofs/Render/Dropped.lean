import ResumableTemplates.Proofs.Render.Course
import ResumableTemplates.Proofs.Render.Fallback

/-! Templates that outlive their unit. Once it is gone none of its sites finds anything any more, and a
render that comes to a site which has found nothing before ends there. A site that has, goes on: what
it refers to is still there as long as anything else keeps it. -/
namespace ResumableTemplates

/-- Holds of a computation among whose units some are gone: it leaves their sites as they were, and stops
for good where one of them asks that has found nothing before. -/
structure RenderState.Bereft (isAlive : Nat → Bool) (s : RenderState) (e : Option Stop)
    (t : RenderState) : Prop where
  bindings : ∀ site, isAlive site.unit = false → t.bindings.find? site = s.bindings.find? site
  events : ∃ new, t.events = new ++ s.events ∧ ∀ site use name, .resolve site use name ∈ new →
    isAlive site.unit = false → s.bindings.find? site = none →
      e = some (.failure (.internal site.template .unitDropped)) ∧
        new.head? = some (.resolve site use name)

namespace Course

def bereft (isAlive : Nat → Bool) : Course := RenderState.Bereft isAlive

variable {isAlive : Nat → Bool}

theorem bereft_lawful : (bereft isAlive).Lawful where
  aside h := ⟨fun _ _ => by rw [h.bindings], [], h.events, fun _ _ _ h => by cases h⟩
  note h := by
    refine ⟨fun _ _ => rfl, [_], rfl, fun site use name hmem => ?_⟩
    cases List.mem_singleton.1 hmem
    cases h
  andThen h h' := by
    obtain ⟨hst, new, hnew, hnone⟩ := h
    obtain ⟨htu, new', hnew', hlast⟩ := h'
    refine ⟨fun site hs => (htu site hs).trans (hst site hs), new' ++ new,
      by rw [hnew', hnew, List.append_assoc], fun site use name hmem hdead hfree => ?_⟩
    obtain hmem | hmem := List.mem_append.1 hmem
    · obtain ⟨he, hhead⟩ := hlast site use name hmem hdead ((hst site hdead).trans hfree)
      exact ⟨he, by rw [List.head?_append, hhead, Option.some_or]⟩
    · cases (hnone site use name hmem hdead hfree).1
  andAside h h' := by
    obtain ⟨hst, new, hnew, hlast⟩ := h
    exact ⟨fun site hs => by rw [h'.bindings, hst site hs], new, h'.events.trans hnew, hlast⟩
  caught h := by
    obtain ⟨hst, new, hnew, hlast⟩ := h
    refine ⟨hst, new, hnew, fun site use name hmem hdead hfree => ?_⟩
    cases (hlast site use name hmem hdead hfree).1

theorem bind_bereft {site : Site} (h : isAlive site.unit = true) (b : Binding) :
    (bereft isAlive).Takes (Activation.bind site b) := by
  refine fun s => ⟨fun other hdead => ?_, [], rfl, fun _ _ _ h => by cases h⟩
  have hne : other ≠ site := by
    rintro rfl
    cases h.symm.trans hdead
  exact (Table.find?_insert ..).trans (if_neg hne)

theorem bereft_serves (env : Env) : (bereft env.isAlive).Serves env where
  resolve a op use i name _ _ _ := by
    intro s
    by_cases h : env.isAlive a.unit = false ∧ s.bindings.find? (a.site i (.template name)) = none
    · have hstop : a.resolve env use i name s =
          (.error (.failure (.internal a.template.name .unitDropped)),
            { s with events := .resolve (a.site i (.template name)) use name :: s.events }) := by
        simp [Activation.resolve, Activation.contradiction, Render.bind_apply, h.1, h.2]
      rw [hstop]
      refine ⟨fun _ _ => rfl, [_], rfl, fun site use' name' hmem _ _ => ?_⟩
      cases List.mem_singleton.1 hmem
      exact ⟨rfl, rfl⟩
    · refine resolve_takes bereft_lawful a (fun b halive => bind_bereft halive b)
        ⟨fun _ _ => rfl, [_], rfl, fun site use' name' hmem hdead hfree => ?_⟩
      cases List.mem_singleton.1 hmem
      exact absurd ⟨hdead, hfree⟩ h
  describe a i table id _ :=
    describe_takes bereft_lawful a fun b halive => bind_bereft halive b
  select a point out name variant allowEmpty base args v _ _ := by
    refine fun s => ⟨fun _ _ => rfl, [_], rfl, fun site use name hmem => ?_⟩
    cases List.mem_singleton.1 hmem

end Course

/-- Whatever was rendered before its unit was dropped, a template whose call or literal has not been come
to until then ends there with an error that is beyond repair, and nothing is found for it. -/
theorem Call.run_bereft (c : Call) (s : RenderState) :
    s.Bereft c.env.isAlive (Render.stop? (c.run s).1) (c.run s).2 := by
  have hserves := Course.bereft_serves c.env
  unfold Call.run
  cases c.source with
  | none => exact Course.start_takes Course.bereft_lawful hserves c.template c.params s
  | some o => exact Course.resume_takes Course.bereft_lawful hserves c.template c.params o s

/-- A page that has called its greeting before goes on to do so without its unit, while somebody keeps
the greeting. -/
example :
    let page (isAlive isHeld : Bool) : Call :=
      ⟨{ Env.plain .together 2 with isAlive := fun _ => isAlive, isHeld := fun _ => isHeld },
        .compiled 0 "page", [], none⟩
    let s := RenderState.initial (.buffer "")
    let used := ((page true true).run s).2
    ((page false true).run s).2.chunks = ["dear "] ∧
      ((page false true).run used).2.chunks = ["dear ", "hi", "dear ", "hi"] ∧
      ((page false false).run used).2.chunks = ["dear ", "hi", "dear "] := by
  decide +kernel

end ResumableTemplates
