import ResumableTemplates.Proofs.Render.Schedules

/-! Sinks that take every write at once. A render of any templates leaves such a sink as one, and is
refused nothing. -/
namespace ResumableTemplates

def Sink.TakesAll : Sink → Prop
  | buffer _ | capture _ => True
  | throttled t => t.pauseBefore = []
  | writer w => w.chunk ≠ some 0 ∧ w.limit = none
  | scripted s => (∀ n, s.refuses n = false) ∧ (∀ n, s.holdsAfter n = false) ∧ s.failsAt = none

namespace Sink.TakesAll

variable {k : Sink}

theorem neverWaits (h : k.TakesAll) : k.NeverWaits := by
  cases k with
  | scripted s => exact ⟨h.1, h.2.1⟩
  | throttled t => exact h
  | _ => trivial

theorem poll (h : k.TakesAll) : k.poll.2.TakesAll := by
  cases k with
  | throttled t =>
    have hpoll : t.poll = (.ready, t) := by simp [Throttle.poll, show t.pauseBefore = [] from h]
    simpa [Sink.poll, hpoll] using h
  | _ => exact h

theorem append (h : k.TakesAll) (chunk : String) :
    (k.append chunk).2.TakesAll ∧ (k.append chunk).1 = .ok .ready := by
  cases k with
  | writer w =>
    have htaken : w.taken chunk.toUTF8.data.size = chunk.toUTF8.data.size := by
      simp [ByteWriter.taken, h.1, h.2]
    simp only [Sink.append, ByteWriter.append, htaken, if_true]
    exact ⟨h, rfl⟩
  | scripted s =>
    have hnot : s.failsAt ≠ some s.writes := by simp [h.2.2]
    simp only [Sink.append, Script.append, if_neg hnot, h.2.1]
    exact ⟨h, rfl⟩
  | throttled t => exact ⟨h, rfl⟩
  | _ => exact ⟨trivial, rfl⟩

end Sink.TakesAll

structure RenderState.Taking (s : RenderState) : Prop where
  sink : s.sink.TakesAll
  accepted : s.Accepted

namespace RenderState

variable {s u : RenderState}

theorem Accepted.quietly (hs : s.Accepted) (h : s.Quietly u) : u.Accepted := by
  intro e he
  cases hr : e.refusal? with
  | none => rfl
  | some x =>
    obtain ⟨chunk, rfl⟩ : ∃ chunk, e = .append chunk (.error x) := by
      unfold Event.refusal? at hr
      split at hr <;> cases hr
      exact ⟨_, rfl⟩
    have hcall : SinkCall.append chunk (.error x) ∈ s.sinkCalls :=
      h.sinkCalls ▸ List.mem_reverse.2 (List.mem_filterMap.2 ⟨_, he, rfl⟩)
    obtain ⟨e, he, hcall⟩ := List.mem_filterMap.1 (List.mem_reverse.1 hcall)
    cases e <;> cases hcall
    exact hr.symm.trans (hs _ he)

namespace Taking

variable (hs : s.Taking)

include hs

theorem quietly (h : s.Quietly u) : u.Taking := ⟨h.sink ▸ hs.sink, hs.accepted.quietly h⟩

theorem noted {sink : Sink} (hsink : sink.TakesAll) {e : Event} (he : e.refusal? = none)
    (hold : Bool) :
    Taking { s with sink := sink, holdsSink := hold, events := e :: s.events } :=
  ⟨hsink, List.forall_mem_cons.2 ⟨he, hs.accepted⟩⟩

theorem within (a : Activation) (out : Output) : (s.within a out).Taking := by
  cases out <;> exact ⟨hs.sink, hs.accepted⟩

theorem back (t : RenderState) (out : Output) : (t.back s out).Taking := by
  cases out <;> exact ⟨hs.sink, hs.accepted⟩

theorem awaitSink {r : Except Stop Unit} (h : Activation.awaitSink s = (r, u)) : u.Taking := by
  rw [Activation.awaitSink_apply] at h
  split at h
  · cases h
    exact ⟨hs.sink, hs.accepted⟩
  · split at h
    · cases h
      exact ⟨hs.sink, hs.accepted⟩
    · exact (Prod.mk.inj h).2 ▸ hs.noted hs.sink.poll rfl false

theorem writeSink {text : String} {r : Except Stop Unit} (h : Activation.writeSink text s = (r, u)) :
    u.Taking := by
  obtain ⟨htakes, hready⟩ := hs.sink.append text
  rw [Activation.writeSink_apply] at h
  split at h
  · cases h
    exact ⟨hs.sink, hs.accepted⟩
  · simp only [hready] at h
    cases h
    exact hs.noted htakes rfl _

theorem poll {r : Except Stop Readiness} (h : Render.poll s = (r, u)) : u.Taking := by
  rw [Render.poll_apply] at h
  split at h <;> cases h
  · exact hs
  · exact hs.noted hs.sink.poll rfl _

theorem append {text : String} {r : Except Stop Readiness} (h : Render.append text s = (r, u)) :
    u.Taking := by
  obtain ⟨htakes, hready⟩ := hs.sink.append text
  rw [Render.append_apply] at h
  split at h <;> cases h
  · exact ⟨hs.sink, hs.accepted⟩
  · exact hs.noted htakes (by rw [hready]; rfl) _

end Taking

end RenderState

def Conduct.taking : Conduct where
  done s u := s.Taking → u.Taking
  paused _ _ s u := s.Taking → u.Taking
  failed s u := s.Taking → u.Taking

theorem Conduct.taking_lawful : Conduct.taking.Lawful where
  quiet h _ hs := hs.quietly h
  andDone h h' hs := h' (h hs)
  andPaused h h' hs := h' (h hs)
  andFailed h h' hs := h' (h hs)
  fails h := h
  lost h := h
  written h h' hs := (hs.awaitSink h).writeSink h'
  refused h h' hs := (hs.awaitSink h).writeSink h'
  putOff h _ hs := hs.quietly h
  awaited _ _ h hs := hs.awaitSink h
  returned h hs := (h (hs.within _ _)).back _ _
  inside _ _ h hs := (h (hs.within _ _)).back _ _
  left h hs := (h (hs.within _ _)).back _ _

theorem Conduct.taking_hosted : Conduct.taking.Hosted where
  putOff h hs := hs.poll h
  written h h' hs := (hs.poll h).append h'
  refused h h' hs := (hs.poll h).append h'

theorem RenderState.Taking.start {s : RenderState} (hs : s.Taking) (env : Env) (t : TemplateRef)
    (params : Record) : (Render.start env t params s).2.Taking := by
  have hsettled := Conduct.outermost_hosted Conduct.taking_lawful Conduct.taking_hosted env t none
    params { s with holdsSink := false }
  have htaking : Taking { s with holdsSink := false } := ⟨hs.sink, hs.accepted⟩
  simp only [Render.start, Render.takeHold, Render.bind_apply, Render.modifyGet_apply]
  generalize Render.outermost env t none params _ = r at hsettled ⊢
  cases hsettled with
  | done hu => exact hu htaking
  | failed hu => exact hu htaking
  | suspended hu => exact ⟨(hu htaking).sink, (hu htaking).accepted⟩

end ResumableTemplates
