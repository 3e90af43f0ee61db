import ResumableTemplates.Proofs.Render.Nesting
import ResumableTemplates.Render.Resume

/-! Renders driven to their end. A render that is resumed each time it pauses does, in all, what its
template leads to; it pauses no more often than the sink and the providers can put it off. -/
namespace ResumableTemplates

section

variable {env : Env} {asks : Nat → Prop} {s t u : RenderState}

theorem Wrote.dropped : Wrote env asks [] s { s with holdsSink := false } := by
  refine .silent rfl rfl rfl rfl rfl fun b hb => ⟨hb, ?_⟩
  cases h : s.holdsSink <;> simp [Budget.left, h]

variable (env asks) in
structure Drove (deeds : List Deed) (s t : RenderState) : Prop where
  capture : t.capture = none
  deeds : t.deeds = s.deeds ++ deeds
  depth : t.depth = s.depth
  world : env.world t.bindings = env.world s.bindings
  spends : Spends env asks s t

theorem Wrote.drove {deeds : List Deed} (h : Wrote env asks deeds s t) (hs : s.capture = none) :
    Drove env asks deeds s t where
  capture := by rw [h.capture, hs]; rfl
  deeds := by rw [h.deeds, hs]; rfl
  depth := h.depth
  world := h.world
  spends := h.spends

theorem Drove.saved {deeds : List Deed} (h : Drove env asks deeds s t)
    (cells : Array (Option Frames)) : Drove env asks deeds s { t with cells := cells } :=
  ⟨h.capture, h.deeds, h.depth, h.world, h.spends⟩

theorem Drove.trans {xs ys : List Deed} (h : Drove env asks xs s t) (h' : Drove env asks ys t u) :
    Drove env asks (xs ++ ys) s u where
  capture := h'.capture
  deeds := by rw [h'.deeds, h.deeds, List.append_assoc]
  depth := h'.depth.trans h.depth
  world := h'.world.trans h.world
  spends := h.spends.trans h'.spends

end

namespace Setting

variable {lib : Library} {known : Nat → String → UInt64 → Prop} (S : Setting lib known) (d : Nat)

/-- What a render or a resume of a template comes to, whose work does deeds and ends as `goal`
says: its end, or a saved render that leads to the rest. -/
inductive Outermost (t : TemplateRef) (params : Record) (goal : List Deed → End → Prop)
    (s : RenderState) : Except Stop Outcome × RenderState → Prop
  | done : Wrote S.env S.asks deeds s u → goal deeds .done → Outermost t params goal s (.ok .done, u)
  | suspended : Wrote S.env S.asks deeds s u → Pays S.env S.asks s u → S.Resumes t f →
      (∀ deeds' e, Leads S.world d (.template t (some f) params) deeds' e →
        goal (deeds ++ deeds') e) →
      Outermost t params goal s (.ok (.suspended ⟨f.outer.template, why, f.depth, u.cells.size⟩),
        { u with cells := u.cells.push (some f) })
  | failed : Wrote S.env S.asks deeds s u → goal deeds (.failed e) →
      Outermost t params goal s (.error (.failure e), u)
  | broken : Wrote S.env S.asks deeds s u → u.Broken S.env.isAlive S.units e →
      Outermost t params goal s (.error (.failure e), u)

variable {S d}

theorem Outermost.after {t : TemplateRef} {params : Record} {goal goal' : List Deed → End → Prop}
    {s u : RenderState} {r : Except Stop Outcome × RenderState} {deeds : List Deed}
    (h : S.Outermost d t params goal u r) (hsu : Wrote S.env S.asks deeds s u)
    (hgoal : ∀ deeds' e, goal deeds' e → goal' (deeds ++ deeds') e) :
    S.Outermost d t params goal' s r := by
  cases h with
  | done hw hg => exact .done (hsu.trans hw) (hgoal _ _ hg)
  | suspended hw hp hf hgo =>
    refine .suspended (hsu.trans hw) (hsu.spends.pays hp) hf fun deeds' e hl => ?_
    rw [List.append_assoc]
    exact hgoal _ _ (hgo _ _ hl)
  | failed hw hg => exact .failed (hsu.trans hw) (hgoal _ _ hg)
  | broken hw hbreak => exact .broken (hsu.trans hw) hbreak

theorem Outermost.of_suspended {t : TemplateRef} {params : Record} {goal : List Deed → End → Prop}
    {s u : RenderState} {st : ResumeState}
    (h : S.Outermost d t params goal s (.ok (.suspended st), u)) : ∃ deeds f v,
      Wrote S.env S.asks deeds s v ∧ S.Resumes t f ∧ st.template = f.outer.template ∧
      (∀ deeds' e, Leads S.world d (.template t (some f) params) deeds' e →
        goal (deeds ++ deeds') e) ∧
      u = { v with cells := v.cells.push (some f) } ∧ u.cells[st.cell]? = some (some f) := by
  cases h with
  | suspended hw _ hf hgo => exact ⟨_, _, _, hw, hf, rfl, hgo, rfl, Array.getElem?_push_size⟩

theorem outermost_leads {t : TemplateRef} (ht : t.Within S.units) {params : Record}
    (hp : Record.All S.Fits params) (frames : Option Frames)
    (hf : ∀ f, frames = some f → S.Resumes t f) {s : RenderState}
    (hs : S.env.world s.bindings = S.world) (hd : s.depth = d) :
    S.Outermost d t params (Leads S.world d (.template t frames params)) s
      (Render.outermost S.env t frames params s) := by
  have hrun := runWithin_faithful (S := S) (d := d) (S.env.maxDepth - s.depth)
    (by have : S.world.maxDepth = S.env.maxDepth := rfl; omega)
    t frames params (fun r => r = t) s hs hd ht hp hf
  simp only [Render.outermost, Render.bind_apply, Render.get_apply]
  generalize runWithin S.env _ t frames params _ s = r at hrun ⊢
  cases hrun with
  | done hw hg => exact .done hw hg
  | paused hw hpay hres hgo => exact .suspended hw hpay hres hgo
  | failed hw hg => exact .failed hw hg
  | broken hw hbreak => exact .broken hw hbreak

theorem start_leads {t : TemplateRef} (ht : t.Within S.units) {params : Record}
    (hp : Record.All S.Fits params) {s : RenderState} (hs : S.env.world s.bindings = S.world)
    (hd : s.depth = d) :
    S.Outermost d t params (Leads S.world d (.template t none params)) s
      (Render.start S.env t params s) := by
  have hdrop : Wrote S.env S.asks [] s { s with holdsSink := false } := .dropped
  have := outermost_leads ht hp none (fun _ h => (by cases h)) (hdrop.world.trans hs)
    (hdrop.depth.trans hd)
  simp only [Render.start, Render.takeHold, Render.bind_apply, Render.modifyGet_apply]
  exact this.after hdrop fun _ _ h => h

theorem Resumes.name {unit : Nat} {name : String} {f : Frames}
    (h : S.Resumes (.compiled unit name) f) (hc : lib.compiled? unit name ≠ none) :
    f.outer.template = name := by
  obtain ⟨t, ht⟩ := Option.ne_none_iff_exists'.1 hc
  obtain ⟨_, _, _, he⟩ := h.sound.entry ht
  exact he.template

/-- A resume goes on from what was saved, which nobody else can take after that. -/
theorem resume_leads {unit : Nat} {name : String} (hu : S.units unit)
    {params : Record} (hp : Record.All S.Fits params) {f : Frames}
    (hf : S.Resumes (.compiled unit name) f) {st : ResumeState} (hname : st.template = name)
    {s : RenderState} (hcell : s.cells[st.cell]? = some (some f))
    (hs : S.env.world s.bindings = S.world) (hd : s.depth = d) :
    S.Outermost d (.compiled unit name) params
      (Leads S.world d (.template (.compiled unit name) (some f) params))
      { s with cells := s.cells.setIfInBounds st.cell none }
      (Render.resume S.env (.compiled unit name) params (.suspended st) s) := by
  have := outermost_leads (S := S) (t := .compiled unit name) hu hp (some f)
    (fun _ h => Option.some.inj h ▸ hf)
    (s := { s with cells := s.cells.setIfInBounds st.cell none }) hs hd
  simp only [Render.resume, Library.nameOf, hname, ne_eq, not_true_eq_false, if_false,
    Render.takeSaved, Render.bind_apply, Render.pure_apply, Render.get_apply, hcell, Option.join_some,
    Render.modify_apply]
  exact this

inductive Finished (S : Setting lib known) (goal : List Deed → End → Prop) (s : RenderState)
    (fuel : Nat) : Except Stop (Option Nat) × RenderState → Prop
  | done : Drove S.env S.asks deeds s u → goal deeds .done → Finished S goal s fuel (.ok (some n), u)
  | givenUp : (∀ b : Budget S.env S.asks, b.fits s.sink → fuel ≤ b.left s) →
      Finished S goal s fuel (.ok none, u)
  | failed : Drove S.env S.asks deeds s u → goal deeds (.failed e) →
      Finished S goal s fuel (.error (.failure e), u)
  | broken : Drove S.env S.asks deeds s u → u.Broken S.env.isAlive S.units e →
      Finished S goal s fuel (.error (.failure e), u)

theorem Outermost.finished {t : TemplateRef} {params : Record} {goal : List Deed → End → Prop}
    {s : RenderState} {r : Except Stop Outcome × RenderState} {fuel n : Nat}
    (h : S.Outermost d t params goal s r) (hcap : s.capture = none)
    (hrest : ∀ f st u, S.Resumes t f → st.template = f.outer.template →
      u.cells[st.cell]? = some (some f) → u.capture = none →
      S.env.world u.bindings = S.env.world s.bindings → u.depth = s.depth →
      S.Finished (Leads S.world d (.template t (some f) params)) u fuel
        (Render.finish S.env t params fuel n (.suspended st) u))
    {x : Render Outcome} {s' : RenderState} (hx : x s' = r) :
    S.Finished goal s (fuel + 1) ((x >>= Render.finish S.env t params fuel n) s') := by
  rw [Render.bind_apply, hx]
  cases h with
  | done hw hg =>
    have hdone : Render.finish S.env t params fuel n .done = pure (some n) := by cases fuel <;> rfl
    dsimp only
    rw [hdone]
    exact .done (hw.drove hcap) hg
  | failed hw hg => exact .failed (hw.drove hcap) hg
  | broken hw hbreak => exact .broken (hw.drove hcap) hbreak
  | @suspended deeds u f why hw hpay hres hgo =>
    have hdrove := (hw.drove hcap).saved (u.cells.push (some f))
    have hrest := hrest f ⟨f.outer.template, why, f.depth, u.cells.size⟩
      { u with cells := u.cells.push (some f) } hres rfl (by simp) hdrove.capture hdrove.world
      hdrove.depth
    dsimp only
    generalize Render.finish S.env _ params fuel _ _ _ = r at hrest ⊢
    cases hrest with
    | done hw hg => exact .done (hdrove.trans hw) (hgo _ _ hg)
    | failed hw hg => exact .failed (hdrove.trans hw) (hgo _ _ hg)
    | broken hw hbreak => exact .broken (hdrove.trans hw) hbreak
    | givenUp hleft =>
      exact .givenUp fun b hb =>
        Nat.le_trans (Nat.succ_le_succ (hleft b (hdrove.spends b hb).1)) (hpay b hb)

theorem finish_leads {unit : Nat} {name : String} (hc : lib.compiled? unit name ≠ none)
    (hu : S.units unit) {params : Record} (hp : Record.All S.Fits params) (fuel : Nat) {n : Nat}
    {st : ResumeState} {f : Frames} (hf : S.Resumes (.compiled unit name) f)
    (hname : st.template = name) {s : RenderState} (hcell : s.cells[st.cell]? = some (some f))
    (hcap : s.capture = none) (hs : S.env.world s.bindings = S.world) (hd : s.depth = d) :
    S.Finished (Leads S.world d (.template (.compiled unit name) (some f) params)) s fuel
      (Render.finish S.env (.compiled unit name) params fuel n (.suspended st) s) := by
  induction fuel generalizing n st f s with
  | zero => exact .givenUp fun _ _ => Nat.zero_le _
  | succ fuel ih =>
    have htaken : S.Finished (Leads S.world d (.template (.compiled unit name) (some f) params))
        { s with cells := s.cells.setIfInBounds st.cell none } (fuel + 1)
        (Render.finish S.env (.compiled unit name) params (fuel + 1) n (.suspended st) s) :=
      (resume_leads hu hp hf hname hcell hs hd).finished hcap (fun _ _ _ hf hst hcell hcap hw hd' =>
        ih hf (hst.trans (hf.name hc)) hcell hcap (hw.trans hs) (hd'.trans hd)) rfl
    generalize Render.finish S.env _ params _ _ _ s = r at htaken
    cases htaken with
    | done hw hg => exact .done ⟨hw.capture, hw.deeds, hw.depth, hw.world, hw.spends⟩ hg
    | failed hw hg => exact .failed ⟨hw.capture, hw.deeds, hw.depth, hw.world, hw.spends⟩ hg
    | broken hw hbreak =>
      exact .broken ⟨hw.capture, hw.deeds, hw.depth, hw.world, hw.spends⟩ hbreak
    | givenUp hleft => exact .givenUp hleft

/-- A render that is driven to its end does what its template leads to. -/
theorem drive_leads {unit : Nat} {name : String} (hc : lib.compiled? unit name ≠ none)
    (hu : S.units unit) {params : Record} (hp : Record.All S.Fits params) (fuel : Nat)
    {s : RenderState} (hcap : s.capture = none) (hs : S.env.world s.bindings = S.world)
    (hd : s.depth = d) :
    S.Finished (Leads S.world d (.template (.compiled unit name) none params)) s (fuel + 1)
      ((Render.start S.env (.compiled unit name) params >>=
        Render.finish S.env (.compiled unit name) params fuel 0) s) :=
  (start_leads (S := S) (t := .compiled unit name) hu hp hs hd).finished hcap
    (fun _ _ _ hf hst hcell hcap hw hd' => finish_leads hc hu hp fuel hf (hst.trans (hf.name hc))
      hcell hcap (hw.trans hs) (hd'.trans hd)) rfl

end Setting

end ResumableTemplates
