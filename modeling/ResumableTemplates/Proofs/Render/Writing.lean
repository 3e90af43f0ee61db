import ResumableTemplates.Proofs.Render.Setting

/-! What writing and calling do to a render's state. -/
namespace ResumableTemplates

variable {env : Env} {asks : Nat → Prop} {w : World} {s t u : RenderState}

theorem Render.poll_wrote (env : Env) (asks : Nat → Prop) (s : RenderState) :
    ∃ t, Wrote env asks [] s t ∧
      (poll s = (.ok .ready, t) ∨ poll s = (.ok .notReady, t) ∧ Pays env asks s t) := by
  cases hc : s.capture with
  | some text => exact ⟨s, .refl, .inl (by simp [poll, bind_apply, hc])⟩
  | none =>
    let t : RenderState := { s with sink := s.sink.poll.2, events := .poll s.sink.poll.1 :: s.events }
    have hpoll : poll s = (.ok s.sink.poll.1, t) := by simp [poll, bind_apply, hc, t]
    have hw : Wrote env asks [] s t := by
      refine .silent rfl (RenderState.deeds_quiet rfl s) rfl rfl rfl fun b hb => ?_
      obtain ⟨hf, hle, -⟩ := b.poll _ hb
      exact ⟨hf, Nat.add_le_add_right (Nat.add_le_add_right hle _) _⟩
    refine ⟨t, hw, ?_⟩
    rw [hpoll]
    cases hr : s.sink.poll.1 with
    | ready => exact .inl rfl
    | notReady =>
      refine .inr ⟨rfl, fun b hb => ?_⟩
      have := (b.poll _ hb).2.2 hr
      exact Nat.add_lt_add_right (Nat.add_lt_add_right this _) _

def RenderState.Refused (e : SinkError) (s : RenderState) : Prop :=
  ∃ chunk before, s.events = .append chunk (.error e) :: before

theorem Render.append_wrote (env : Env) (asks : Nat → Prop) (chunk : String) (s : RenderState) :
    (∃ r t, append chunk s = (.ok r, t) ∧ Wrote env asks [.write chunk] s t ∧
      (r = .notReady → Pays env asks s t)) ∨
    ∃ t e, append chunk s = (.error (.failure (.sink e)), t) ∧ Wrote env asks [] s t ∧ t.Refused e := by
  cases hc : s.capture with
  | some x =>
    refine .inl ⟨.ready, { s with capture := some (x ++ chunk) }, ?_, ?_, fun h => (by cases h)⟩
    · simp [append, bind_apply, hc]
    · refine ⟨?_, ?_, rfl, rfl, rfl, .of_eq rfl rfl rfl⟩
      · simp [hc, Deed.texts, Deed.text?, String.join_cons]
      · rw [hc]
        exact (List.append_nil _).symm
  | none =>
    have hspends : ∀ {t : RenderState}, t.sink = (s.sink.append chunk).2 → t.forces = s.forces →
        t.holdsSink = s.holdsSink → Spends env asks s t := by
      intro t hs hf hh b hb
      obtain ⟨hfits, hle, -⟩ := b.append _ chunk hb
      rw [Budget.left, Budget.left, hs, hf, hh]
      exact ⟨hfits, Nat.add_le_add_right (Nat.add_le_add_right hle _) _⟩
    cases hr : (s.sink.append chunk).1 with
    | error e =>
      refine .inr ⟨{ s with
        sink := (s.sink.append chunk).2, events := .append chunk (.error e) :: s.events }, e, ?_, ?_,
        chunk, s.events, rfl⟩
      · simp [append, bind_apply, hc, hr]
      · exact .silent rfl (RenderState.deeds_quiet rfl s) rfl rfl rfl (hspends rfl rfl rfl)
    | ok r =>
      refine .inl ⟨r, { s with
        sink := (s.sink.append chunk).2, events := .append chunk (.ok r) :: s.events }, ?_, ?_, ?_⟩
      · simp [append, bind_apply, hc, hr]
      · refine ⟨by simp [hc], ?_, rfl, rfl, rfl, hspends rfl rfl rfl⟩
        rw [hc]
        exact RenderState.deeds_note _ { s with sink := (s.sink.append chunk).2 }
      · rintro rfl b hb
        have := (b.append _ chunk hb).2.2 hr
        exact Nat.add_lt_add_right (Nat.add_lt_add_right this _) _

theorem Activation.awaitSink_wrote (env : Env) (asks : Nat → Prop) (s : RenderState) :
    ∃ t, Wrote env asks [] s t ∧ (awaitSink s = (.ok (), t) ∨
      (∃ why, awaitSink s = (.error (.pause why), t)) ∧ Pays env asks s t) := by
  have hdrop : Wrote env asks [] s { s with holdsSink := false } := by
    refine .silent rfl rfl rfl rfl rfl fun b hb => ⟨hb, ?_⟩
    cases h : s.holdsSink <;> simp [Budget.left, h]
  cases hh : s.holdsSink with
  | true =>
    refine ⟨{ s with holdsSink := false }, hdrop, .inr ⟨⟨.sinkNotReady, ?_⟩, fun b hb => ?_⟩⟩
    · simp [awaitSink, Render.takeHold, Render.bind_apply, hh]
    · simp [Budget.left, hh]
  | false =>
    obtain ⟨t, ht, hpoll | ⟨hpoll, hpay⟩⟩ :=
      Render.poll_wrote env asks { s with holdsSink := false }
    · refine ⟨t, hdrop.trans ht, .inl ?_⟩
      simp [awaitSink, Render.takeHold, Render.bind_apply, hh, hpoll]
    · refine ⟨t, hdrop.trans ht, .inr ⟨⟨.sinkNotReady, ?_⟩, hdrop.spends.pays hpay⟩⟩
      simp [awaitSink, Render.takeHold, Render.bind_apply, hh, hpoll]

theorem Activation.writeSink_wrote (env : Env) (asks : Nat → Prop) (text : String)
    (s : RenderState) :
    (∃ t, writeSink text s = (.ok (), t) ∧ Wrote env asks [.write text] s t) ∨
      ∃ t e, writeSink text s = (.error (.failure (.sink e)), t) ∧ Wrote env asks [] s t ∧
        t.Refused e := by
  obtain ⟨r, t, happend, hw, hpay⟩ | ⟨t, e, happend, hw, href⟩ := Render.append_wrote env asks text s
  · cases r with
    | ready => exact .inl ⟨t, by simp [writeSink, Render.bind_apply, happend], hw⟩
    | notReady =>
      refine .inl ⟨{ t with holdsSink := true }, ?_, { hw with spends := fun b hb => ?_ }⟩
      · simp [writeSink, Render.bind_apply, happend, Render.holdSink]
      · have hlt := hpay rfl b hb
        have hle : b.left { t with holdsSink := true } ≤ b.left t + 1 := by
          simp only [Budget.left, if_true]
          omega
        exact ⟨(hw.spends b hb).1, Nat.le_trans hle hlt⟩
  · exact .inr ⟨t, e, by simp [writeSink, Render.bind_apply, happend], hw, href⟩

/-- The state in which a callee starts that writes to an output. -/
def RenderState.within (s : RenderState) (a : Activation) : Output → RenderState
  | .sink => { s with depth := s.depth + 1 }
  | .buffer slot => { s with depth := s.depth + 1, capture := (a.buffer slot).toOption }

/-- The state after a callee that wrote to an output. -/
def RenderState.back (s u : RenderState) : Output → RenderState
  | .sink => { u with depth := u.depth - 1 }
  | .buffer _ => { u with depth := u.depth - 1, capture := s.capture }

@[simp] theorem RenderState.within_cells (s : RenderState) (a : Activation) (out : Output) :
    (s.within a out).cells = s.cells := by cases out <;> rfl

@[simp] theorem RenderState.within_depth (s : RenderState) (a : Activation) (out : Output) :
    (s.within a out).depth = s.depth + 1 := by cases out <;> rfl

@[simp] theorem RenderState.back_depth (s u : RenderState) (out : Output) :
    (s.back u out).depth = u.depth - 1 := by cases out <;> rfl

@[simp] theorem RenderState.back_cells (s u : RenderState) (out : Output) :
    (s.back u out).cells = u.cells := by cases out <;> rfl

@[simp] theorem RenderState.within_events (s : RenderState) (a : Activation) (out : Output) :
    (s.within a out).events = s.events := by cases out <;> rfl

@[simp] theorem RenderState.back_events (s u : RenderState) (out : Output) :
    (s.back u out).events = u.events := by cases out <;> rfl

@[simp] theorem RenderState.within_holdsSink (s : RenderState) (a : Activation) (out : Output) :
    (s.within a out).holdsSink = s.holdsSink := by cases out <;> rfl

@[simp] theorem RenderState.back_holdsSink (s u : RenderState) (out : Output) :
    (s.back u out).holdsSink = u.holdsSink := by cases out <;> rfl

theorem RenderState.Refused.back {s u : RenderState} {out : Output} {e : SinkError}
    (h : u.Refused e) : (s.back u out).Refused e := by
  rwa [RenderState.Refused, RenderState.back_events]

theorem Wrote.back {a b : Activation} {out : Output} {deeds : List Deed}
    (ha : a.received [] out = .ok b) (h : Wrote env asks deeds (s.within a out) u) :
    Wrote env asks (out.passed deeds) s (s.back u out) := by
  have hdepth : u.depth - 1 = s.depth := by
    have := h.depth
    cases out <;> exact (congrArg (· - 1) this).trans (Nat.add_sub_cancel _ _)
  cases out with
  | sink => exact ⟨h.capture, h.deeds, hdepth, h.cells, h.world, h.spends⟩
  | buffer slot =>
    obtain ⟨x, hx, -⟩ := Except.bind_ok_iff.1 ha
    refine ⟨?_, ?_, hdepth, h.cells, h.world, h.spends⟩
    · rw [Output.passed, Deed.texts_seen]
      cases hc : s.capture <;> simp [RenderState.back, hc]
    · have hdeeds := h.deeds
      simp only [RenderState.within, hx, Except.toOption, Option.isSome_some] at hdeeds
      rw [Output.passed, Deed.seen_seen]
      exact hdeeds

theorem Activation.enter_apply (env : Env) (asks : Nat → Prop) (run : Runner) {a b : Activation}
    {out : Output} (t : TemplateRef) (frames : Option Frames) (params : Record)
    (hd : s.depth < env.maxDepth) (ha : a.received [] out = .ok b) : ∃ held, ∀ x u,
    run t frames params held (s.within a out) = (x, u) →
      (∀ e, x = .error e → a.enter env run out t frames params s = (.error e, s.back u out)) ∧
      ∀ o deeds c, x = .ok o → Wrote env asks deeds (s.within a out) u →
        a.received deeds out = .ok c →
        a.enter env run out t frames params s = (.ok (o, c), s.back u out) := by
  refine ⟨fun r => t = r || a.holds r || Value.fieldsKeep r params, fun x u hx => ?_⟩
  have hnot : ¬ env.maxDepth ≤ s.depth := Nat.not_le.2 hd
  cases out with
  | sink =>
    simp only [RenderState.within] at hx
    refine ⟨fun e he => ?_, fun o deeds c he _ hc => ?_⟩
    · subst he
      simp [-Value.fieldsKeep_eq, enter, Render.deeper, Render.bind_apply, hnot, hx, RenderState.back]
    · subst he
      cases hc
      simp [-Value.fieldsKeep_eq, enter, Render.deeper, Render.bind_apply, hnot, hx, RenderState.back]
  | buffer slot =>
    obtain ⟨y, hy, -⟩ := Except.bind_ok_iff.1 ha
    simp only [RenderState.within, hy, Except.toOption] at hx
    refine ⟨fun e he => ?_, fun o deeds c he hw hc => ?_⟩
    · subst he
      simp [-Value.fieldsKeep_eq, enter, Render.deeper, Render.bind_apply, hnot, hx, RenderState.back, hy,
        Render.capturing, Except.map]
    · subst he
      obtain ⟨z, hz, hc⟩ := Except.bind_ok_iff.1 hc
      cases hy.symm.trans hz
      have hcap : u.capture = some (y ++ String.join (Deed.texts deeds)) := by
        simpa [RenderState.within, hy, Except.toOption] using hw.capture
      simp [-Value.fieldsKeep_eq, enter, Render.deeper, Render.bind_apply, hnot, hx, RenderState.back, hy,
        Render.capturing, Except.map, hcap, hc]

theorem Activation.enter_too_deep {run : Runner} {a : Activation} {out : Output}
    {t : TemplateRef} {frames : Option Frames} {params : Record} (hd : env.maxDepth ≤ s.depth) :
    a.enter env run out t frames params s =
      (.error (.failure (.callDepthExceeded (env.library.nameOf t) env.maxDepth)), s) := by
  simp [enter, Render.deeper, Render.bind_apply, hd]

theorem Activation.received_append {a b : Activation} {out : Output} {deeds : List Deed}
    (h : a.received deeds out = .ok b) (deeds' : List Deed) :
    a.received (deeds ++ deeds') out = b.received deeds' out := by
  cases out with
  | sink =>
    cases h
    rfl
  | buffer slot =>
    obtain ⟨x, hx, h⟩ := Except.bind_ok_iff.1 h
    unfold set at h
    split at h
    · rename_i hlt
      cases h
      have hb : buffer { a with locals := a.locals.set slot (.buffer (x ++ String.join (Deed.texts deeds))) }
          slot = .ok (x ++ String.join (Deed.texts deeds)) := by
        simp [buffer, hlt]
      simp only [received, hx, hb, Except.ok_bind]
      simp [set, hlt, String.join_append, String.append_assoc]
    · cases h

theorem Activation.attempt_apply (env : Env) (run : Runner) (a : Activation) (p : Nat) (op : Op)
    (s : RenderState) : a.attempt env run p op s = match a.step env run p op s with
      | (.ok x, t) => (.ok x, t)
      | (.error (.pause why), t) => (.ok (.paused why a []), t)
      | (.error (.failure e), t) => (.error (.failure e), t) := by
  rw [attempt, Render.tryCatch_apply]
  rcases a.step env run p op s with ⟨(_ | _) | _, t⟩ <;> rfl

theorem Output.passed_append (out : Output) (deeds deeds' : List Deed) :
    out.passed (deeds ++ deeds') = out.passed deeds ++ out.passed deeds' := by
  cases out with
  | sink => rfl
  | buffer slot => exact Deed.seen_append _ _ _

end ResumableTemplates
