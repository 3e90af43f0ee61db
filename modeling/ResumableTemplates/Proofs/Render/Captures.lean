import ResumableTemplates.Proofs.Render.Protocol

/-! Pauses inside captures. A write into a capture is not put off by the sink, but for one case: where
the sink has asked for a pause when it was last written to, a callee that writes into a capture pauses
in the place of the next write to the sink. -/
namespace ResumableTemplates

def RenderState.Asked (pending : Prop) (s : RenderState) : Prop :=
  pending ∨ ∃ chunk, .append chunk (.ok .notReady) ∈ s.sinkCalls

def Conduct.pausesAtSink (pending : Prop) : Conduct where
  done s u := ((s.holdsSink = true → s.Asked pending) → u.holdsSink = true → u.Asked pending) ∧
    (s.Asked pending → u.Asked pending) ∧ u.capture.isSome = s.capture.isSome
  paused ops why s u := (s.holdsSink = true → s.Asked pending) → why = .sinkNotReady →
    s.capture = none ∧ (∀ op ∈ ops, op.output? = some .sink) ∨ u.Asked pending
  failed _ _ := True

variable {pending : Prop} {s u v : RenderState}

theorem RenderState.asked_congr (h : u.sinkCalls = s.sinkCalls) :
    u.Asked pending ↔ s.Asked pending := by
  rw [Asked, h, Asked]

namespace Activation

theorem awaitSink_putOff {e : Stop} (h : awaitSink s = (.error e, u)) :
    s.holdsSink = true ∧ u.sinkCalls = s.sinkCalls ∨ s.capture = none := by
  rw [awaitSink_apply] at h
  split at h
  · rename_i hh
    cases h
    exact .inl ⟨hh, rfl⟩
  · split at h
    · cases h
    · rename_i hc
      exact .inr (by simpa using hc)

theorem awaitSink_asked (h : awaitSink s = (.ok (), u)) :
    u.holdsSink = false ∧ (s.Asked pending → u.Asked pending) ∧ u.capture = s.capture := by
  rw [awaitSink_apply] at h
  split at h
  · cases h
  · split at h
    · cases h
      exact ⟨rfl, id, rfl⟩
    · cases hr : s.sink.poll.1 <;> rw [hr] at h <;> cases h
      refine ⟨rfl, Or.imp_right fun ⟨chunk, hc⟩ => ⟨chunk, ?_⟩, rfl⟩
      rw [RenderState.sinkCalls_cons (s := s) rfl rfl]
      exact List.mem_append_left _ hc

theorem writeSink_asked {text : String} (h : writeSink text u = (.ok (), v))
    (hu : u.holdsSink = false) : (v.holdsSink = true → v.Asked pending) ∧
      (u.Asked pending → v.Asked pending) ∧ v.capture.isSome = u.capture.isSome := by
  rw [writeSink_apply] at h
  split at h
  · rename_i hc
    cases h
    refine ⟨fun hh => ?_, id, by rw [hc]; rfl⟩
    rw [show u.holdsSink = true from hh] at hu
    cases hu
  · obtain ⟨hevents, hholds, hcapture⟩ :
        v.events = .append text (u.sink.append text).1 :: u.events ∧
        (v.holdsSink = true → (u.sink.append text).1 = .ok .notReady) ∧ v.capture = u.capture := by
      dsimp only at h
      split at h <;> cases h <;> simp_all
    have hcalls : v.sinkCalls = _ := RenderState.sinkCalls_cons hevents rfl
    refine ⟨fun hh => .inr ⟨text, ?_⟩, Or.imp_right fun ⟨chunk, hc⟩ => ⟨chunk, ?_⟩, by rw [hcapture]⟩
    · rw [hcalls, hholds hh]
      exact List.mem_append_right _ (List.mem_singleton.2 rfl)
    · rw [hcalls]
      exact List.mem_append_left _ hc

end Activation

open Activation RenderState in
theorem Conduct.pausesAtSink_lawful : (Conduct.pausesAtSink pending).Lawful where
  quiet h _ := ⟨fun hs hu => (asked_congr h.sinkCalls).2 (hs (h.holdsSink ▸ hu)),
    (asked_congr h.sinkCalls).2, by rw [h.capture]⟩
  andDone h h' := ⟨fun hs => h'.1 (h.1 hs), fun hs => h'.2.1 (h.2.1 hs), h'.2.2.trans h.2.2⟩
  andPaused h h' hs hwhy := (h' (h.1 hs) hwhy).imp_left fun ⟨hc, hops⟩ =>
    ⟨by simpa [hc] using h.2.2.symm, hops⟩
  andFailed _ _ := trivial
  fails _ := trivial
  lost _ := trivial
  written h h' := by
    obtain ⟨hh, ha, hc⟩ := awaitSink_asked h
    obtain ⟨hv, hu, hc'⟩ := writeSink_asked h' hh
    exact ⟨fun _ => hv, fun hs => hu (ha hs), by rw [hc', hc]⟩
  refused _ _ := trivial
  putOff _ _ _ hwhy := by cases hwhy
  awaited hout _ h hs _ := by
    obtain ⟨hh, hcalls⟩ | hc := awaitSink_putOff h
    · exact .inr ((asked_congr hcalls).2 (hs hh))
    · exact .inl ⟨hc, fun op hop => List.mem_singleton.1 hop ▸ hout⟩
  returned {s u a out} h := by
    refine ⟨fun hs hu => ?_, fun hs => ?_, ?_⟩
    · exact (asked_congr (sinkCalls_congr (back_events ..))).2 (h.1
        (fun hh => (asked_congr (sinkCalls_congr (within_events ..))).2
          (hs (within_holdsSink _ _ _ ▸ hh))) (back_holdsSink _ _ _ ▸ hu))
    · exact (asked_congr (sinkCalls_congr (back_events ..))).2
        (h.2.1 ((asked_congr (sinkCalls_congr (within_events ..))).2 hs))
    · cases out with
      | sink => exact h.2.2
      | buffer slot => rfl
  inside {s u a out op ops why} hout hopen h hs hwhy := by
    obtain ⟨hc, hops⟩ | ha := h (fun hh => (asked_congr (sinkCalls_congr (within_events ..))).2
      (hs (within_holdsSink _ _ _ ▸ hh))) hwhy
    · refine .inl ?_
      -- A callee that renders into a buffer has a capture in the place of the sink.
      cases out with
      | sink => exact ⟨hc, List.forall_mem_cons.2 ⟨hout, hops⟩⟩
      | buffer slot =>
        obtain ⟨text, ht⟩ := hopen slot rfl
        simp [within, ht, Except.toOption] at hc
    · exact .inr ((asked_congr (sinkCalls_congr (back_events ..))).2 ha)
  left _ := trivial

def Frames.AreCompiled (f : Frames) : Prop := ∀ c ∈ f.calls, c.callee.IsCompiled

/-- A render or a resume that is suspended for the sink was about to write to it, all the way down from
the outermost template, or the sink had asked for a pause when it was written to. -/
theorem Call.suspended_at_sink {c : Call} (he : c.env.Reaches TemplateRef.IsCompiled)
    (ht : c.template.IsCompiled) {s u : RenderState} {st : ResumeState}
    (hsaved : ∀ st f, c.source = some (.suspended st) → s.cells[st.cell]? = some (some f) →
      f.AreCompiled)
    (h : c.run s = (.ok (.suspended st), u)) (hreason : st.reason = .sinkNotReady) :
    ∃ f ops, u.cells[st.cell]? = some (some f) ∧
      Frames.StoppedAt c.env.library c.template f.outer f.calls ops ∧
      ((∀ op ∈ ops, op.output? = some .sink) ∨ (c.source ≠ none ∧ s.holdsSink = true) ∨
        ∃ chunk, .append chunk (.ok .notReady) ∈ u.sinkCalls) := by
  have run : ∀ {pending : Prop} {frames : Option Frames} {v : RenderState},
      Render.outermost c.env c.template frames c.params v = (.ok (.suspended st), u) →
      (v.holdsSink = true → v.Asked pending) → (∀ f : Frames, frames = some f → f.AreCompiled) →
      ∃ f ops, u.cells[st.cell]? = some (some f) ∧
        Frames.StoppedAt c.env.library c.template f.outer f.calls ops ∧
          ((∀ op ∈ ops, op.output? = some .sink) ∨ u.Asked pending) := by
    intro pending frames v hrun hv hf
    have hsettled := Conduct.outermost_settled (C := .pausesAtSink pending)
      Conduct.pausesAtSink_lawful he (fun _ _ _ _ _ h => h.elim) ht hf c.params v
    rw [hrun] at hsettled
    cases hsettled with
    | @suspended ops why w f hp hst =>
      exact ⟨f, ops, Array.getElem?_push_size, hst.stoppedAt, (hp hv hreason).imp_left And.right⟩
  cases ho : c.source with
  | none =>
    simp only [Call.run, ho, Render.start, Render.takeHold, Render.bind_apply,
      Render.modifyGet_apply] at h
    have nothing : ∀ f : Frames, none = some f → f.AreCompiled := fun _ h => by cases h
    obtain ⟨f, ops, hf, hst, hops⟩ := @run False none _ h (fun h => (by cases h)) nothing
    exact ⟨f, ops, hf, hst, hops.imp_right fun ha => .inr (ha.resolve_left id)⟩
  | some o =>
    simp only [Call.run, ho] at h
    cases o with
    | done => cases h
    | suspended st' =>
      by_cases hname : c.env.library.nameOf c.template = st'.template
      case neg => rw [Render.resume_foreign hname] at h; cases h
      obtain hcell | ⟨g, hcell⟩ : s.cells[st'.cell]?.join = none ∨
          ∃ g, s.cells[st'.cell]? = some (some g) := by
        rcases s.cells[st'.cell]? with _ | _ | g
        · exact .inl rfl
        · exact .inl rfl
        · exact .inr ⟨g, rfl⟩
      · simp only [Render.resume, Render.takeSaved, Render.bind_apply, hname, hcell, ne_eq,
          not_true_eq_false, if_false, Render.get_apply, Render.fail_apply] at h
        cases h
      · rw [Render.resume_first hname hcell] at h
        obtain ⟨f, ops, hf, hst, hops⟩ := @run (s.holdsSink = true) (some g) _ h (fun hh => .inl hh)
          fun f hf => Option.some.inj hf ▸ hsaved st' g ho hcell
        refine ⟨f, ops, hf, hst, hops.imp_right fun ha => ha.imp_left fun hp => ⟨?_, hp⟩⟩
        simp

end ResumableTemplates
