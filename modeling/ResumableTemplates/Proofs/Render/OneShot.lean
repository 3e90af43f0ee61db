import ResumableTemplates.Proofs.Render.Conduct

/-! Histories of renders and resumes. Any templates may be rendered, and any outcome that was returned
may be resumed by any of them, as often as one likes; a copy of an outcome is the outcome itself. A
saved render is run by the first resume that bears its name, and every other resume is refused. -/
namespace ResumableTemplates

structure Call where
  env : Env
  template : TemplateRef
  params : Record
  source : Option Outcome

def Call.name (c : Call) : String := c.env.library.nameOf c.template

def Call.run (c : Call) : Render Outcome :=
  match c.source with
  | none => .start c.env c.template c.params
  | some o => .resume c.env c.template c.params o

def Env.plain (lib : Library) (maxDepth : Nat) : Env where
  library := lib
  lookup := .none
  maxDepth := maxDepth
  injected := []
  isReady _ _ := true
  isAlive _ := true
  isHeld _ := false

theorem Env.Involves.plain (lib : Library) (maxDepth : Nat) :
    (Env.plain lib maxDepth).Involves fun _ => True :=
  ⟨fun _ _ => rfl, fun _ _ h => (by cases h), fun _ _ _ h => (by cases h)⟩

def RenderState.initial (sink : Sink) : RenderState :=
  ⟨sink, none, 0, false, .empty, .empty, #[], []⟩

def CompiledUnit.greeting : CompiledUnit where
  templates := [⟨"greeting", false, .html, ⟨#[.text 0 .sink "hi"], #[⟨0, []⟩], #[], [], []⟩, []⟩]
  metadata := []
  tables := .empty

structure Made where
  call : Call
  before : RenderState
  result : Except Stop Outcome
  after : RenderState

def Call.made (c : Call) (s : RenderState) : Made := ⟨c, s, (c.run s).1, (c.run s).2⟩

/-- Holds of a state that may come after calls: between two of them anything may happen, other
renders included, as long as the cells of saved renders are left alone. -/
def Follows (s : RenderState) : List Made → Prop
  | [] => True
  | e :: _ => ∀ i, i < e.after.cells.size → s.cells[i]? = e.after.cells[i]?

/-- Holds of calls made one after another, the latest first. Each resume is from an outcome that says
that a render is done, or from one that an earlier call has returned. -/
inductive History : List Made → Prop
  | nil : History []
  | cons : History es → Follows s es → c.run s = (r, t) →
      (∀ st, c.source = some (.suspended st) → ∃ e ∈ es, e.result = .ok (.suspended st)) →
      History (⟨c, s, r, t⟩ :: es)

namespace Made

def Claims (e : Made) (st : ResumeState) : Prop :=
  e.call.source = some (.suspended st) ∧ e.call.name = st.template

structure Refused (e : Made) (why : RenderError) : Prop where
  result : e.result = .error (.failure why)
  unchanged : e.after = e.before

theorem Refused.of_eq {e : Made} {why : RenderError}
    (h : (e.result, e.after) = (.error (.failure why), e.before)) : e.Refused why :=
  ⟨congrArg Prod.fst h, congrArg Prod.snd h⟩

def Executes (e : Made) (st : ResumeState) (f : Frames) : Prop :=
  e.Claims st ∧ e.before.cells[st.cell]? = some (some f) ∧
    (e.result, e.after) = Render.outermost e.call.env e.call.template (some f) e.call.params
      { e.before with cells := e.before.cells.setIfInBounds st.cell none }

def Saves (e : Made) (st : ResumeState) (f : Frames) : Prop :=
  e.result = .ok (.suspended st) ∧ e.after.cells[st.cell]? = some (some f)

/-- What comes of a resume after other calls. -/
structure Ruled (es : List Made) (e : Made) : Prop where
  done : e.call.source = some .done → e.Refused .alreadyComplete
  foreign : ∀ st, e.call.source = some (.suspended st) → e.call.name ≠ st.template →
    e.Refused (.wrongTemplate st.template e.call.name)
  again : ∀ st, e.Claims st → (∃ d ∈ es, d.Claims st) → e.Refused .doubleResume
  first : ∀ st, e.Claims st → (∀ d ∈ es, ¬ d.Claims st) →
    ∃ f, (∃ d ∈ es, d.Saves st f) ∧ e.Executes st f

end Made

def Conduct.leavesCells : Conduct where
  done s u := u.cells = s.cells
  paused _ _ s u := u.cells = s.cells
  failed s u := u.cells = s.cells

open Activation in
theorem Conduct.leavesCells_lawful : Conduct.leavesCells.Lawful where
  quiet h _ := h.cells
  andDone h h' := h'.trans h
  andPaused h h' := h'.trans h
  andFailed h h' := h'.trans h
  fails h := h
  lost h := h
  written h h' := (writeSink_leaves h').1.trans (awaitSink_leaves h).1
  refused h h' := (writeSink_leaves h').1.trans (awaitSink_leaves h).1
  putOff h _ := h.cells
  awaited _ _ h := (awaitSink_leaves h).1
  returned h := by simpa [leavesCells] using h
  inside _ _ h := by simpa [leavesCells] using h
  left h := by simpa [leavesCells] using h

theorem Render.append_leaves {text : String} {r : Except Stop Readiness} {s u : RenderState}
    (h : append text s = (r, u)) : u.cells = s.cells ∧ u.depth = s.depth := by
  rw [append_apply] at h
  split at h <;> exact (Prod.mk.inj h).2 ▸ ⟨rfl, rfl⟩

theorem Render.poll_leaves {r : Except Stop Readiness} {s u : RenderState} (h : poll s = (r, u)) :
    u.cells = s.cells ∧ u.depth = s.depth := by
  rw [poll_apply] at h
  split at h <;> exact (Prod.mk.inj h).2 ▸ ⟨rfl, rfl⟩

theorem Conduct.leavesCells_hosted : Conduct.leavesCells.Hosted where
  putOff h := (Render.poll_leaves h).1
  written h h' := (Render.append_leaves h').1.trans (Render.poll_leaves h).1
  refused h h' := (Render.append_leaves h').1.trans (Render.poll_leaves h).1

def Conduct.keepsDepth : Conduct where
  done s u := u.depth = s.depth
  paused _ _ s u := u.depth = s.depth
  failed s u := u.depth = s.depth

open Activation in
theorem Conduct.keepsDepth_lawful : Conduct.keepsDepth.Lawful where
  quiet h _ := h.depth
  andDone h h' := h'.trans h
  andPaused h h' := h'.trans h
  andFailed h h' := h'.trans h
  fails h := h
  lost h := h
  written h h' := (writeSink_leaves h').2.trans (awaitSink_leaves h).2
  refused h h' := (writeSink_leaves h').2.trans (awaitSink_leaves h).2
  putOff h _ := h.depth
  awaited _ _ h := (awaitSink_leaves h).2
  returned h := by simp [keepsDepth, show _ = _ from h]
  inside _ _ h := by simp [keepsDepth, show _ = _ from h]
  left h := by simp [keepsDepth, show _ = _ from h]

theorem Conduct.keepsDepth_hosted : Conduct.keepsDepth.Hosted where
  putOff h := (Render.poll_leaves h).2
  written h h' := (Render.append_leaves h').2.trans (Render.poll_leaves h).2
  refused h h' := (Render.append_leaves h').2.trans (Render.poll_leaves h).2

/-- What becomes of the saved renders when a template is run as the outermost one: nothing, but that
what the run itself leaves behind is saved in a new cell. -/
theorem Render.outermost_cells (env : Env) (t : TemplateRef) (frames : Option Frames)
    (params : Record) (s : RenderState) {r : Except Stop Outcome} {u : RenderState}
    (h : Render.outermost env t frames params s = (r, u)) :
    (∃ st f, r = .ok (.suspended st) ∧ st.cell = s.cells.size ∧ u.cells = s.cells.push (some f)) ∨
      (∀ st, r ≠ .ok (.suspended st)) ∧ u.cells = s.cells := by
  have hsettled := Conduct.outermost_hosted Conduct.leavesCells_lawful Conduct.leavesCells_hosted env
    t frames params s
  rw [h] at hsettled
  cases hsettled with
  | done hu => exact .inr ⟨fun _ h => (by cases h), hu⟩
  | @suspended ops why v f hv =>
    have hcells : v.cells = s.cells := hv
    exact .inl ⟨_, f, rfl, congrArg Array.size hcells, congrArg (·.push (some f)) hcells⟩
  | failed hu => exact .inr ⟨fun _ h => (by cases h), hu⟩

def Issued (es : List Made) (st : ResumeState) : Prop := ∃ e ∈ es, e.result = .ok (.suspended st)

/-- What the cells hold after calls: each saved render that was returned is in a cell of its own until
it is claimed. -/
structure Tally (es : List Made) (cells : Array (Option Frames)) : Prop where
  known : ∀ d ∈ es, ∀ st, d.Claims st → Issued es st
  bound : ∀ st, Issued es st → st.cell < cells.size
  apart : ∀ st st', Issued es st → Issued es st' → st.cell = st'.cell → st = st'
  taken : ∀ st, Issued es st → (∃ d ∈ es, d.Claims st) → cells[st.cell]? = some none
  there : ∀ st, Issued es st → (∀ d ∈ es, ¬ d.Claims st) →
    ∃ f, (∃ d ∈ es, d.Saves st f) ∧ cells[st.cell]? = some (some f)

namespace Tally

variable {es : List Made} {e : Made} {cells taken : Array (Option Frames)}

theorem of_extends (h : Tally es cells)
    (hext : ∀ i, i < cells.size → taken[i]? = cells[i]?) : Tally es taken where
  known := h.known
  bound st hst := by
    have hlt := h.bound st hst
    have := hext _ hlt
    rw [Array.getElem?_eq_getElem hlt] at this
    exact (Array.getElem?_eq_some_iff.1 this).1
  apart := h.apart
  taken st hst hd := (hext _ (h.bound st hst)).trans (h.taken st hst hd)
  there st hst hd := by
    obtain ⟨f, hf, hc⟩ := h.there st hst hd
    exact ⟨f, hf, (hext _ (h.bound st hst)).trans hc⟩

theorem step (h : Tally es cells) (hsource : ∀ st, e.Claims st → Issued es st)
    (hsize : taken.size = cells.size)
    (hclaims : ∀ st, e.Claims st → taken[st.cell]? = some none)
    (hother : ∀ st, Issued es st → ¬ e.Claims st → taken[st.cell]? = cells[st.cell]?)
    (hafter : (∃ st f, e.result = .ok (.suspended st) ∧ st.cell = taken.size ∧
        e.after.cells = taken.push (some f)) ∨
      (∀ st, e.result ≠ .ok (.suspended st)) ∧ e.after.cells = taken) :
    Tally (e :: es) e.after.cells := by
  have hkeep : ∀ i, i < taken.size → e.after.cells[i]? = taken[i]? := by
    intro i hi
    obtain ⟨st, f, -, -, ha⟩ | ⟨-, ha⟩ := hafter
    · rw [ha, Array.getElem?_push_lt hi, Array.getElem?_eq_getElem hi]
    · rw [ha]
  have hold : ∀ st, Issued es st → e.after.cells[st.cell]? = taken[st.cell]? := fun st hst =>
    hkeep _ (hsize ▸ h.bound st hst)
  have hmono : ∀ st, Issued es st → Issued (e :: es) st := fun st ⟨d, hd, hr⟩ =>
    ⟨d, List.mem_cons_of_mem _ hd, hr⟩
  -- What is new is in a cell that there was not before.
  have hnew : ∀ st, Issued (e :: es) st → Issued es st ∨
      st.cell = taken.size ∧ ∃ f, e.Saves st f := by
    rintro st ⟨d, hd, hr⟩
    cases hd with
    | tail _ hd => exact .inl ⟨d, hd, hr⟩
    | head =>
      obtain ⟨st', f, hr', hcell, ha⟩ | ⟨hr', -⟩ := hafter
      · cases hr.symm.trans hr'
        exact .inr ⟨hcell, f, hr, by rw [ha, hcell, Array.getElem?_push_size]⟩
      · exact absurd hr (hr' st)
  have hfresh : ∀ st, st.cell = taken.size → ¬ Issued es st := fun st hcell hst =>
    absurd (h.bound st hst) (by omega)
  have hknown : ∀ d ∈ e :: es, ∀ st, d.Claims st → Issued es st := by
    intro d hd st hc
    cases hd with
    | head => exact hsource st hc
    | tail _ hd => exact h.known d hd st hc
  refine ⟨fun d hd st hc => hmono st (hknown d hd st hc), fun st hst => ?_,
    fun st st' hst hst' hcell => ?_, fun st hst hd => ?_, fun st hst hd => ?_⟩
  · obtain hst | ⟨-, f, -, hf⟩ := hnew st hst
    · have hlt := h.bound st hst
      rw [← hsize] at hlt
      have := hkeep _ hlt
      rw [Array.getElem?_eq_getElem hlt] at this
      exact (Array.getElem?_eq_some_iff.1 this).1
    · exact (Array.getElem?_eq_some_iff.1 hf).1
  · obtain hst | ⟨hst, f, hf, -⟩ := hnew st hst <;> obtain hst' | ⟨hst', f', hf', -⟩ := hnew st' hst'
    · exact h.apart st st' hst hst' hcell
    · exact absurd (hcell ▸ hst') fun he => hfresh st he hst
    · exact absurd (hcell ▸ hst) fun he => hfresh st' he hst'
    · cases hf.symm.trans hf'
      rfl
  · obtain ⟨d, hd, hc⟩ := hd
    have hst := hknown d hd st hc
    rw [hold st hst]
    by_cases he : e.Claims st
    · exact hclaims st he
    · rw [hother st hst he]
      cases hd with
      | head => exact absurd hc he
      | tail _ hd => exact h.taken st hst ⟨d, hd, hc⟩
  · obtain hst | ⟨-, f, hf⟩ := hnew st hst
    · obtain ⟨f, ⟨d, hd', hf⟩, hc⟩ := h.there st hst fun d hd' => hd d (List.mem_cons_of_mem _ hd')
      refine ⟨f, ⟨d, List.mem_cons_of_mem _ hd', hf⟩, ?_⟩
      rw [hold st hst, hother st hst (hd e List.mem_cons_self), hc]
    · exact ⟨f, ⟨e, List.mem_cons_self, hf⟩, hf.2⟩

end Tally

namespace Render

variable {env : Env} {t : TemplateRef} {params : Record} {s : RenderState} {st : ResumeState}

theorem resume_done : resume env t params .done s = (.error (.failure .alreadyComplete), s) := rfl

theorem resume_foreign (h : env.library.nameOf t ≠ st.template) :
    resume env t params (.suspended st) s =
      (.error (.failure (.wrongTemplate st.template (env.library.nameOf t))), s) := by
  simp [resume, bind_apply, Ne.symm h]

theorem resume_taken (h : env.library.nameOf t = st.template)
    (hc : (s.cells[st.cell]?).join = none) :
    resume env t params (.suspended st) s = (.error (.failure .doubleResume), s) := by
  simp [resume, takeSaved, bind_apply, h, hc]

theorem resume_first {f : Frames} (h : env.library.nameOf t = st.template)
    (hc : s.cells[st.cell]? = some (some f)) : resume env t params (.suspended st) s =
      outermost env t (some f) params { s with cells := s.cells.setIfInBounds st.cell none } := by
  simp [resume, takeSaved, bind_apply, h, hc]

end Render

namespace Made

variable {es : List Made} {e : Made} (hrun : e.call.run e.before = (e.result, e.after))
  (hsource : ∀ st, e.call.source = some (.suspended st) → Issued es st)

include hrun

theorem run_eq_resume {o : Outcome} (ho : e.call.source = some o) :
    Render.resume e.call.env e.call.template e.call.params o e.before = (e.result, e.after) := by
  rw [← hrun, Call.run, ho]

include hsource

theorem ruled (h : Tally es e.before.cells) : e.Ruled es where
  done ho := .of_eq (run_eq_resume hrun ho).symm
  foreign st ho hname := .of_eq ((run_eq_resume hrun ho).symm.trans (Render.resume_foreign hname))
  again st hc hd := .of_eq ((run_eq_resume hrun hc.1).symm.trans
    (Render.resume_taken hc.2 (congrArg _ (h.taken st (hsource st hc.1) hd))))
  first st hc hd := by
    obtain ⟨f, hf, hcell⟩ := h.there st (hsource st hc.1) hd
    exact ⟨f, hf, hc, hcell, (run_eq_resume hrun hc.1).symm.trans (Render.resume_first hc.2 hcell)⟩

theorem tally (h : Tally es e.before.cells) : Tally (e :: es) e.after.cells := by
  have hr := ruled hrun hsource h
  have hknown : ∀ st, e.Claims st → Issued es st := fun st hc => hsource st hc.1
  -- A refused call neither takes nor saves anything.
  have refused : ∀ {why}, e.Refused why → (∀ st, e.Claims st → e.before.cells[st.cell]? = some none) →
      Tally (e :: es) e.after.cells := fun hw hc =>
    h.step hknown rfl hc (fun _ _ _ => rfl)
      (.inr ⟨fun st hst => (by cases hw.result.symm.trans hst), congrArg _ hw.unchanged⟩)
  cases ho : e.call.source with
  | none =>
    have hstart : Render.outermost e.call.env e.call.template none e.call.params
        { e.before with holdsSink := false } = (e.result, e.after) := by
      rw [← hrun, Call.run, ho]
      simp [Render.start, Render.takeHold, Render.bind_apply]
    have hafter := Render.outermost_cells _ _ _ _ _ hstart
    exact h.step hknown rfl (fun st hc => (by cases ho.symm.trans hc.1)) (fun _ _ _ => rfl) hafter
  | some o =>
    cases o with
    | done => exact refused (hr.done ho) fun st hc => by cases ho.symm.trans hc.1
    | suspended st =>
      have same : ∀ st', e.Claims st' → st' = st := fun st' hc => by
        cases ho.symm.trans hc.1
        rfl
      by_cases hname : e.call.name = st.template
      · by_cases hd : ∃ d ∈ es, d.Claims st
        · exact refused (hr.again st ⟨ho, hname⟩ hd) fun st' hc => by
            cases same st' hc
            exact h.taken st (hsource st ho) hd
        · obtain ⟨f, -, -, hcell, hrun⟩ := hr.first st ⟨ho, hname⟩ fun d hd' hc => hd ⟨d, hd', hc⟩
          have hlt := h.bound st (hsource st ho)
          have hafter := Render.outermost_cells _ _ _ _ _ hrun.symm
          refine h.step hknown (by simp) (fun st' hc => ?_) (fun st' hst' hc => ?_) hafter
          · cases same st' hc
            simp [hlt]
          · have hne : st.cell ≠ st'.cell := fun he => hc (by
              cases h.apart st st' (hsource st ho) hst' he
              exact ⟨ho, hname⟩)
            simp [hne]
      · exact refused (hr.foreign st ho hname) fun st' hc => by
          cases same st' hc
          exact absurd hc.2 hname

end Made

namespace History

variable {es later : List Made} {e : Made}

theorem tally (h : History es) {s : RenderState} (hs : Follows s es) : Tally es s.cells := by
  induction h generalizing s with
  | nil =>
    have none : ∀ st, ¬ Issued [] st := fun _ ⟨_, hd, _⟩ => by cases hd
    exact ⟨fun _ hd => (by cases hd), fun st h => (none st h).elim, fun st _ h => (none st h).elim,
      fun st h => (none st h).elim, fun st h => (none st h).elim⟩
  | cons _ hf hrun hsource ih => exact (Made.tally hrun hsource (ih hf)).of_extends hs

theorem suffix (h : History (later ++ es)) : History es := by
  induction later with
  | nil => exact h
  | cons e later ih =>
    cases h with
    | cons h => exact ih h

/-- Each saved render is run once, by the first resume that bears its name; a resume that is refused
leaves everything as it was, and the saved render to whoever may claim it. -/
theorem one_shot (h : History es) :
    (∀ later e earlier, es = later ++ e :: earlier → e.Ruled earlier) ∧
      ∀ st, es.Pairwise fun e d => ¬ ((∃ f, e.Executes st f) ∧ ∃ f, d.Executes st f) := by
  refine ⟨?_, fun st => ?_⟩
  · rintro later e earlier rfl
    cases h.suffix with
    | cons h hf hrun hsource => exact Made.ruled hrun hsource (h.tally hf)
  · induction h with
    | nil => exact .nil
    | cons h hf hrun hsource ih =>
      refine .cons (fun d hd => ?_) ih
      rintro ⟨⟨f, hc, hcell, -⟩, f', hc', -⟩
      cases hcell.symm.trans ((h.tally hf).taken st (hsource st hc.1) ⟨d, hd, hc'⟩)

/-- A greeting that its sink has put off is resumed once and not twice. -/
theorem one_shot_greeting :
    let call : Option Outcome → Call :=
      (⟨.plain ⟨#[.greeting], #[], []⟩ 1, .compiled 0 "greeting", [], ·⟩)
    let saved : Outcome := .suspended ⟨"greeting", .sinkNotReady, 1, 0⟩
    let start := (call none).made (.initial (.throttled (.of [0])))
    let once := (call (some saved)).made start.after
    let twice := (call (some saved)).made once.after
    History [twice, once, start] ∧ once.result = .ok .done ∧ twice.Refused .doubleResume := by
  intro call saved start once twice
  have saves : ∀ st, some saved = some (.suspended st) → start.result = .ok (.suspended st) := by
    intro st hst
    rw [← Option.some.inj hst]
    rfl
  have h : History [twice, once, start] :=
    .cons (.cons (.cons .nil trivial rfl fun _ h => (by cases h)) (fun _ _ => rfl) rfl
      fun st hst => ⟨start, List.mem_cons_self, saves st hst⟩) (fun _ _ => rfl) rfl
      fun st hst => ⟨start, List.mem_cons_of_mem _ List.mem_cons_self, saves st hst⟩
  exact ⟨h, rfl, (h.one_shot.1 [] twice [once, start] rfl).again _ ⟨rfl, rfl⟩
    ⟨once, List.mem_cons_self, rfl, rfl⟩⟩

end History

end ResumableTemplates
