import ResumableTemplates.Proofs.Compile.Certified
import ResumableTemplates.Proofs.Render.Drive
import ResumableTemplates.Proofs.Render.OneShot

/-! Compiled templates never contradict themselves. No render fails with an error that is beyond repair,
and what it saves when it pauses passes every check of a resume, whatever the resume is given. -/
namespace ResumableTemplates

/-- Holds of the libraries of compiled units in which a unit's tables have an entry for each element
that its source describes by them. -/
def Library.IsDescribed (lib : Library) : Prop :=
  ∀ u ∈ lib.units, ∃ o files tables, CompiledUnit.compile o files tables = .ok u ∧
    ∀ f ∈ files, ∀ t ∈ f.templates, ∀ id name table entries,
      .expr (.element id name (some table)) ∈ t.visits → tables.find? table = some entries →
        entries.find? id ≠ none

theorem Library.IsDescribed.certificate {lib : Library} (h : lib.IsDescribed) :
    Nonempty (Certificate lib fun unit table id => lib.own unit table id ≠ some none) :=
  exists_certificate fun i u hu => by
    obtain ⟨joins, files, tables, hc, helements⟩ := h u (Array.mem_of_getElem? hu)
    refine ⟨joins, files, tables, hc, fun f hf t ht v hv => ?_⟩
    cases v with
    | expr e =>
      cases e with
      | element id name table =>
        cases table with
        | none => trivial
        | some table =>
          intro hnone
          obtain ⟨entries, he, hid⟩ := Option.map_eq_some_iff.1 hnone
          rw [hu, Option.bind_some] at he
          obtain ⟨_, _, _, _, htables⟩ := CompiledUnit.compile_ok hc
          exact helements f hf t ht id name table entries hv (htables ▸ he) hid
      | _ => trivial
    | _ => trivial

namespace Env

variable {env : Env} {bindings : Table Site Binding} {unit i : Nat} {template name table : String}
  {id : UInt64} {e : RenderError}

theorem world_template_error (h : (env.world bindings).template unit template i name = .error e) :
    e.isFatal = false := by
  have hlook : ∀ {e}, env.lookUp name = .error e → e.isFatal = false := by
    intro e he
    unfold Env.lookUp at he
    split at he <;> cases he
    rfl
  simp only [Env.world] at h
  split at h
  · cases h
  · exact hlook h
  · split at h
    · cases h
    · exact hlook h

theorem world_element_error
    (h : (env.world bindings).element unit template i table id = .error e) :
    e.isFatal = false ∨ env.library.own unit table id = some none ∧
      e = .internal template (.missingElement table id) := by
  have hlook : ∀ {e}, env.lookUpElement table id = .error e → e.isFatal = false := by
    intro e he
    unfold Env.lookUpElement at he
    split at he <;> cases he
    rfl
  simp only [Env.world] at h
  split at h
  · cases h
  · exact .inl (hlook h)
  · split at h
    · cases h
    · rename_i hown
      cases h
      exact .inr ⟨hown, rfl⟩
    · exact .inl (hlook h)

theorem world_tolerates (env : Env) (bindings : Table Site Binding) :
    (env.world bindings).Tolerates (·.isFatal = false)
      fun unit table id => env.library.own unit table id ≠ some none where
  other _ h := h
  sites _ _ _ _ _ h := world_template_error h
  elements _ _ _ _ _ _ hknown h := (world_element_error h).resolve_right fun hown => hknown hown.1

end Env

/-- Holds of the results that are no contradiction: no render pauses but with something saved, and none
fails with an error that is beyond repair. -/
def Made.IsConsistent (e : Made) : Prop :=
  (∀ why, e.result ≠ .error (.pause why)) ∧
    ∀ template cause, e.result ≠ .error (.failure (.internal template cause))

/-- Holds of a call of a compiled template of a library, if the units that it involves are there. -/
structure Call.Takes (c : Call) (lib : Library) (units : Nat → Prop) : Prop where
  library : c.env.library = lib
  involves : c.env.Involves units
  template : ∃ unit name, c.template = .compiled unit name ∧ units unit

/-- Holds of calls of which each resume is made through the template that has paused. -/
def OwnResumes (es : List Made) : Prop :=
  ∀ e ∈ es, ∀ d ∈ es, ∀ st, e.call.source = some (.suspended st) → d.result = .ok (.suspended st) →
    d.call.template = e.call.template

namespace Setting

section

variable {lib : Library} {known : Nat → String → UInt64 → Prop} {S : Setting lib known}

theorem leads_tolerable {Q : RenderError → Prop} (hQ : S.world.Tolerates Q known) {d : Nat}
    {t : TemplateRef} {frames : Option Frames} {params : Record} {deeds : List Deed} {e : RenderError}
    (h : Leads S.world d (.template t frames params) deeds (.failed e))
    (hf : ∀ f, frames = some f → S.Resumes t f) : Q e := by
  have hwork : Work.Alike False S.cert (.template t frames params) (.template t frames params) :=
    .template (fun f hs => (hf f hs).sound) (.refl params)
  obtain ⟨-, -, -, hq⟩ := h.alike (.refl _) S.library hQ hwork False.elim
  exact hq e rfl

theorem resumes_iff (hasks : S.asks = fun _ => True) {t : TemplateRef} {f : Frames} :
    S.Resumes t f ↔ FramesSound S.cert t f.outer f.calls ∧ ∀ c ∈ f.calls, c.callee.Within S.units := by
  have hfits : ∀ v, S.Fits v := fun v => by
    rw [Fits, hasks]
    exact v.asksOnly_all
  exact ⟨fun h => ⟨h.sound, fun c hc => (h.keeps c hc).within⟩, fun h => ⟨h.1, fun _ _ v _ => hfits v,
    fun c hc => ⟨h.2 c hc, fun f _ => hfits f.2, fun _ _ v _ => hfits v⟩⟩⟩

end

variable {lib : Library} {S : Setting lib fun unit table id => lib.own unit table id ≠ some none}

theorem Outermost.isConsistent {d : Nat} {t : TemplateRef} {frames : Option Frames} {params : Record}
    {s : RenderState} {e : Made}
    (h : S.Outermost d t params (Leads S.world d (.template t frames params)) s (e.result, e.after))
    (halive : ∀ unit, S.units unit → S.env.isAlive unit = true)
    (hf : ∀ f, frames = some f → S.Resumes t f) :
    e.IsConsistent ∧ ∀ st f, e.Saves st f → S.Resumes t f := by
  obtain ⟨c, before, r, after⟩ := e
  cases h with
  | done => exact ⟨⟨fun _ h => (by cases h), fun _ _ h => (by cases h)⟩, fun _ _ h => (by cases h.1)⟩
  | suspended hw hp hres hgo =>
    refine ⟨⟨fun _ h => (by cases h), fun _ _ h => (by cases h)⟩, fun st f' hst => ?_⟩
    obtain ⟨hr, hcell⟩ := hst
    cases hr
    simp only [Array.getElem?_push_size, Option.some.injEq] at hcell
    exact hcell ▸ hres
  | failed hw hl =>
    refine ⟨⟨fun _ h => (by cases h), ?_⟩, fun _ _ h => (by cases h.1)⟩
    rintro template cause ⟨⟩
    have hQ := S.env.world_tolerates S.bindings
    rw [S.library] at hQ
    cases leads_tolerable hQ hl hf
  | broken _ hbreak =>
    obtain ⟨e, rfl, -⟩ := hbreak.sink halive
    exact ⟨⟨fun _ h => (by cases h), fun _ _ h => (by cases h)⟩, fun _ _ h => (by cases h.1)⟩

end Setting

theorem Made.Refused.isConsistent {e : Made} {why : RenderError} (h : e.Refused why)
    (hwhy : why.isFatal = false) : e.IsConsistent ∧ ∀ st f, ¬ e.Saves st f := by
  refine ⟨⟨fun _ hr => ?_, fun _ _ hr => ?_⟩, fun st f hs => ?_⟩
  · cases h.result.symm.trans hr
  · cases h.result.symm.trans hr
    cases hwhy
  · cases h.result.symm.trans hs.1

namespace History

variable {lib : Library} {units : Nat → Prop} {es : List Made}

theorem consistent_saves
    (cert : Certificate lib fun unit table id => lib.own unit table id ≠ some none)
    (h : History es) (hcalls : ∀ e ∈ es, e.call.Takes lib units) (hown : OwnResumes es) :
    ∀ e ∈ es, e.IsConsistent ∧ ∀ st f, e.Saves st f →
      FramesSound cert e.call.template f.outer f.calls ∧ ∀ c ∈ f.calls, c.callee.Within units := by
  induction h with
  | nil => exact fun _ he => by cases he
  | @cons es s r t c h hf hrun hsource ih =>
    have ih := ih (fun e he => hcalls e (List.mem_cons_of_mem _ he)) fun e he d hd =>
      hown e (List.mem_cons_of_mem _ he) d (List.mem_cons_of_mem _ hd)
    obtain ⟨hlib, hinv, unit, name, ht, hu⟩ := hcalls ⟨c, s, r, t⟩ List.mem_cons_self
    have hwithin : c.template.Within units := by
      rw [show c.template = _ from ht]
      exact hu
    let S : Setting lib fun unit table id => lib.own unit table id ≠ some none :=
      ⟨c.env, s.bindings, cert, units, fun _ => True, hlib, hinv.confines, Record.asksOnly_all _⟩
    have hruled : Made.Ruled es ⟨c, s, r, t⟩ := Made.ruled hrun hsource (h.tally hf)
    -- Whatever the call runs, it runs in a setting in which any provider may be asked.
    have hruns : ∀ frames s', s'.bindings = s.bindings →
        Render.outermost c.env c.template frames c.params s' = (r, t) →
        (∀ f, frames = some f → S.Resumes c.template f) →
        Made.IsConsistent ⟨c, s, r, t⟩ ∧ ∀ st f, Made.Saves ⟨c, s, r, t⟩ st f →
          FramesSound cert c.template f.outer f.calls ∧ ∀ d ∈ f.calls, d.callee.Within units := by
      intro frames s' hs' hrun hframes
      have hout := S.outermost_leads hwithin c.params.asksOnly_all frames hframes
        (s := s') (congrArg _ hs') rfl
      rw [show Render.outermost S.env _ _ _ _ = _ from hrun] at hout
      obtain ⟨hcons, hsaves⟩ := Setting.Outermost.isConsistent (e := ⟨c, s, r, t⟩) hout
        hinv.alive hframes
      exact ⟨hcons, fun st f hst => (Setting.resumes_iff rfl).1 (hsaves st f hst)⟩
    have hrefused : ∀ {why}, Made.Refused ⟨c, s, r, t⟩ why → why.isFatal = false →
        Made.IsConsistent ⟨c, s, r, t⟩ ∧ ∀ st f, Made.Saves ⟨c, s, r, t⟩ st f →
          FramesSound cert c.template f.outer f.calls ∧ ∀ d ∈ f.calls, d.callee.Within units :=
      fun hw hwhy => ⟨(hw.isConsistent hwhy).1, fun st f hst => ((hw.isConsistent hwhy).2 st f hst).elim⟩
    intro e he
    cases he with
    | tail _ he => exact ih e he
    | head =>
      cases ho : c.source with
      | none =>
        refine hruns none { s with holdsSink := false } rfl ?_ fun _ h => (by cases h)
        rw [← hrun, Call.run, ho]
        simp [Render.start, Render.takeHold, Render.bind_apply]
      | some o =>
        cases o with
        | done => exact hrefused (hruled.done ho) rfl
        | suspended st =>
          by_cases hname : c.name = st.template
          · by_cases hd : ∃ d ∈ es, d.Claims st
            · exact hrefused (hruled.again st ⟨ho, hname⟩ hd) rfl
            · obtain ⟨f, ⟨d, hd, hsaves⟩, -, -, hexec⟩ :=
                hruled.first st ⟨ho, hname⟩ fun d hd' hc => hd ⟨d, hd', hc⟩
              have hsame := hown _ List.mem_cons_self d (List.mem_cons_of_mem _ hd) st ho hsaves.1
              refine hruns (some f) { s with cells := s.cells.setIfInBounds st.cell none } rfl
                hexec.symm ?_
              rintro _ ⟨⟩
              exact (Setting.resumes_iff rfl).2 (hsame ▸ (ih d hd).2 st f hsaves)
          · exact hrefused (hruled.foreign st ho hname) rfl

/-- Renders and resumes of compiled templates are consistent, in whatever order they are made and
whatever each is given, if each resume is made through the template that has paused. -/
theorem consistent (hlib : lib.IsDescribed) (h : History es)
    (hcalls : ∀ e ∈ es, e.call.Takes lib units) (hown : OwnResumes es) :
    ∀ e ∈ es, e.IsConsistent := by
  obtain ⟨cert⟩ := hlib.certificate
  exact fun e he => (h.consistent_saves cert hcalls hown e he).1

/-- A letter that its sink has put off before the name is consistent, also with another name. -/
theorem consistent_letter :
    let call : Record → Option Outcome → Call := (⟨.plain .letter 1, .compiled 0 "letter", ·, ·⟩)
    let saved : Outcome := .suspended ⟨"letter", .sinkNotReady, 1, 0⟩
    let start := (call [("name", .str "Ada")] none).made (.initial (.throttled (.of [1])))
    let rest := (call [("name", .str "Eve")] (some saved)).made start.after
    Library.letter.IsDescribed ∧ History [rest, start] ∧ rest.result = .ok .done ∧
      rest.IsConsistent ∧ start.IsConsistent := by
  intro call saved start rest
  have hlib : Library.letter.IsDescribed := by
    intro u hu
    obtain rfl : u = .letter := by simpa [Library.letter] using hu
    have hnone : ∀ f ∈ [TemplateFile.letter], ∀ t ∈ f.templates, ∀ id name table entries,
        .expr (.element id name (some table)) ∈ t.visits →
          (Table.empty : Table String ElementTable).find? table = some entries →
            entries.find? id ≠ none := fun _ _ _ _ _ _ _ _ _ h => by cases h
    exact ⟨{}, _, _, CompiledUnit.letter_compiled, hnone⟩
  have hstart : start.result = .ok saved := Except.toOption_eq_some (by decide +kernel)
  have hrest : rest.result = .ok .done := Except.toOption_eq_some (by decide +kernel)
  have h : History [rest, start] :=
    .cons (.cons .nil trivial (Prod.eta _).symm fun _ h => (by cases h)) (fun _ _ => rfl)
      (Prod.eta _).symm fun st hst => ⟨start, List.mem_cons_self, hstart.trans (congrArg _ (Option.some.inj hst))⟩
  have hcalls : ∀ e ∈ [rest, start], e.call.Takes .letter fun _ => True := by
    intro e he
    simp only [List.mem_cons, List.not_mem_nil, or_false] at he
    obtain rfl | rfl := he <;> exact ⟨rfl, .plain _ _, 0, "letter", rfl, trivial⟩
  have hown : OwnResumes [rest, start] := by
    intro e he d hd _ _ _
    simp only [List.mem_cons, List.not_mem_nil, or_false] at he hd
    obtain rfl | rfl := he <;> obtain rfl | rfl := hd <;> rfl
  have hcons := h.consistent hlib hcalls hown
  exact ⟨hlib, h, hrest, hcons rest List.mem_cons_self,
    hcons start (List.mem_cons_of_mem _ List.mem_cons_self)⟩

end History

end ResumableTemplates
