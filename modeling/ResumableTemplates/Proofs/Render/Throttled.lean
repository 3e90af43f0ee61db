import ResumableTemplates.Proofs.Render.Causes
import ResumableTemplates.Proofs.Render.Protocol
import ResumableTemplates.Proofs.Render.Schedules

/-! Throttled renders. A sink that is not ready once before each of some writes suspends a render as
often as it makes such a write: a write that has been put off is made after all, since what is saved of
it writes something if it comes to its end. -/
namespace ResumableTemplates

def SinkCall.stalls : (writes : Nat) → List SinkCall → List Nat
  | _, [] => []
  | writes, .poll .notReady :: cs => writes :: stalls writes cs
  | writes, .append _ (.ok _) :: cs => stalls (writes + 1) cs
  | writes, _ :: cs => stalls writes cs

theorem SinkCall.stalls_append (writes : Nat) (cs ds : List SinkCall) :
    stalls writes (cs ++ ds) =
      stalls writes cs ++ stalls (writes + (cs.filterMap chunk?).length) ds := by
  induction cs generalizing writes with
  | nil => rfl
  | cons c cs ih =>
    rcases c with (_ | _) | ⟨chunk, _ | r⟩
    · exact ih writes
    · exact congrArg (writes :: ·) (ih writes)
    · exact ih writes
    · have hsome : (SinkCall.append chunk (.ok r)).chunk? = some chunk := rfl
      rw [List.filterMap_cons_some hsome, List.length_cons, ← Nat.add_assoc, Nat.add_right_comm]
      exact ih (writes + 1)

namespace RenderState

variable {s u : RenderState}

def stalls (s : RenderState) : List Nat := SinkCall.stalls 0 s.sinkCalls

theorem stalls_concat {c : SinkCall} (h : u.sinkCalls = s.sinkCalls ++ [c]) :
    u.stalls = s.stalls ++ SinkCall.stalls s.chunks.length [c] := by
  rw [stalls, h, SinkCall.stalls_append, Nat.zero_add, ← chunks_eq, stalls]

theorem chunks_concat {c : SinkCall} (h : u.sinkCalls = s.sinkCalls ++ [c]) :
    u.chunks = s.chunks ++ c.chunk?.toList := by
  rw [chunks_eq, chunks_eq, h, List.filterMap_append]
  cases hc : c.chunk? <;> simp [hc]

end RenderState

namespace Throttle

def due (k : Throttle) : List Nat := if k.pausedAt = some k.writes then [k.writes] else []

def chosen (k : Throttle) (writes : Nat) : List Nat :=
  (List.range writes).filter (· ∈ k.pauseBefore)

/-- Holds of a throttle that is the sink of a render and has put off the chosen writes, each once. -/
structure Governs (k : Throttle) (s : RenderState) : Prop where
  sink : s.sink = .throttled k
  writes : s.chunks.length = k.writes
  pauses : s.stalls.length = k.pauses
  stalls : s.stalls = k.chosen k.writes ++ k.due
  last : ∀ n, k.pausedAt = some n → n ∈ k.pauseBefore ∧ n ≤ k.writes
  hold : s.holdsSink = false

/-- Holds of a throttle after a part of a render that it has not put off: a write that is due then was
due before, and none has been made since. -/
structure Onward (k : Throttle) (s u : RenderState) (k' : Throttle) : Prop where
  governs : k'.Governs u
  pauseBefore : k'.pauseBefore = k.pauseBefore
  due : k'.due ≠ [] → k.due ≠ [] ∧ u.chunks = s.chunks

variable {k k' l : Throttle} {s t u v : RenderState}

theorem Governs.congr (h : k.Governs s) (hsink : u.sink = s.sink) (hhold : u.holdsSink = s.holdsSink)
    (hcalls : u.sinkCalls = s.sinkCalls) : k.Governs u where
  sink := hsink.trans h.sink
  writes := by
    rw [RenderState.chunks_eq, hcalls, ← RenderState.chunks_eq]
    exact h.writes
  pauses := by
    rw [RenderState.stalls, hcalls]
    exact h.pauses
  stalls := by
    rw [RenderState.stalls, hcalls]
    exact h.stalls
  last := h.last
  hold := hhold.trans h.hold

theorem Governs.onward (h : k.Governs s) (hsink : u.sink = s.sink)
    (hhold : u.holdsSink = s.holdsSink) (hcalls : u.sinkCalls = s.sinkCalls) : k.Onward s u k where
  governs := h.congr hsink hhold hcalls
  pauseBefore := rfl
  due hd := by
    refine ⟨hd, ?_⟩
    rw [RenderState.chunks_eq, hcalls, ← RenderState.chunks_eq]

theorem Onward.trans (h : k.Onward s t l) (h' : l.Onward t u k') : k.Onward s u k' where
  governs := h'.governs
  pauseBefore := h'.pauseBefore.trans h.pauseBefore
  due hd := by
    obtain ⟨hl, hu⟩ := h'.due hd
    obtain ⟨hk, ht⟩ := h.due hl
    exact ⟨hk, hu.trans ht⟩

theorem Governs.within {a : Activation} {out : Output} (h : k.Governs s) : k.Governs (s.within a out) :=
  h.congr (by cases out <;> rfl) (s.within_holdsSink a out)
    (RenderState.sinkCalls_congr (s.within_events a out))

theorem Governs.back {out : Output} (h : k.Governs u) : k.Governs (s.back u out) :=
  h.congr (by cases out <;> rfl) (s.back_holdsSink u out)
    (RenderState.sinkCalls_congr (s.back_events u out))

theorem Onward.back {a : Activation} {out : Output} (h : k.Onward (s.within a out) u k') :
    k.Onward s (s.back u out) k' where
  governs := h.governs.back
  pauseBefore := h.pauseBefore
  due hd := by
    obtain ⟨hk, hu⟩ := h.due hd
    refine ⟨hk, ?_⟩
    rw [RenderState.chunks, RenderState.back_events, ← RenderState.chunks, hu, RenderState.chunks,
      RenderState.within_events, RenderState.chunks]

theorem Governs.due_eq (h : k.Governs s) (hready : k.writes ∈ k.pauseBefore → k.pausedAt = some k.writes) :
    k.due = if k.writes ∈ k.pauseBefore then [k.writes] else [] := by
  by_cases hw : k.writes ∈ k.pauseBefore
  · rw [due, if_pos (hready hw), if_pos hw]
  · rw [due, if_neg fun hp => hw (h.last _ hp).1, if_neg hw]

theorem Governs.poll {r : Readiness} (h : k.Governs s) (hp : Render.poll s = (.ok r, u)) :
    u.capture = s.capture ∧ (r = .ready ∧ k.Onward s u k ∧
        (s.capture = none → k.writes ∈ k.pauseBefore → k.pausedAt = some k.writes) ∨
      r = .notReady ∧ s.capture = none ∧ ∃ l : Throttle, l.Governs u ∧
        l.pauseBefore = k.pauseBefore) := by
  rw [Render.poll_apply] at hp
  by_cases hc : s.capture.isSome
  · rw [if_pos hc] at hp
    cases hp
    exact ⟨rfl, .inl ⟨rfl, h.onward rfl rfl rfl, fun hn => by rw [hn] at hc; cases hc⟩⟩
  · have hnone : s.capture = none := by simpa using hc
    rw [if_neg hc, h.sink] at hp
    by_cases hchosen : k.writes ∈ k.pauseBefore ∧ k.pausedAt ≠ some k.writes
    · simp only [Sink.poll, Throttle.poll, if_pos hchosen] at hp
      cases hp
      refine ⟨rfl, .inr ⟨rfl, hnone, { k with pausedAt := some k.writes, pauses := k.pauses + 1 }, ?_, rfl⟩⟩
      have hcalls := RenderState.sinkCalls_cons (s := s) (t := { s with
        sink := .throttled { k with pausedAt := some k.writes, pauses := k.pauses + 1 }
        events := .poll .notReady :: s.events }) rfl rfl
      have hstalls := RenderState.stalls_concat hcalls
      rw [h.writes] at hstalls
      have hdue : k.due = [] := if_neg hchosen.2
      refine ⟨rfl, ?_, ?_, ?_, ?_, h.hold⟩
      · rw [RenderState.chunks_concat hcalls]
        simpa [SinkCall.chunk?] using h.writes
      · rw [hstalls, List.length_append, h.pauses]
        rfl
      · rw [hstalls, h.stalls, hdue, List.append_nil, due, if_pos rfl]
        rfl
      · rintro n ⟨⟩
        exact ⟨hchosen.1, Nat.le_refl _⟩
    · simp only [Sink.poll, Throttle.poll, if_neg hchosen] at hp
      cases hp
      have hcalls := RenderState.sinkCalls_cons (s := s) (t := { s with
        sink := .throttled k, events := .poll .ready :: s.events }) rfl rfl
      have hchunks := (RenderState.chunks_concat hcalls).trans (List.append_nil _)
      have hstalls := (RenderState.stalls_concat hcalls).trans (List.append_nil _)
      refine ⟨rfl, .inl ⟨rfl, ⟨⟨rfl, hchunks ▸ h.writes, hstalls ▸ h.pauses, hstalls ▸ h.stalls, h.last,
        h.hold⟩, rfl, fun hd => ⟨hd, hchunks⟩⟩, fun _ hw => ?_⟩⟩
      exact not_not.1 fun hne => hchosen ⟨hw, hne⟩

theorem Governs.append {text : String} {r : Except Stop Readiness} (h : k.Governs u)
    (hready : u.capture = none → k.writes ∈ k.pauseBefore → k.pausedAt = some k.writes)
    (ha : Render.append text u = (r, v)) :
    r = .ok .ready ∧ v.capture.isSome = u.capture.isSome ∧ ∃ l, k.Onward u v l := by
  rw [Render.append_apply] at ha
  cases hc : u.capture with
  | some x =>
    rw [hc] at ha
    cases ha
    exact ⟨rfl, rfl, k, h.onward rfl rfl rfl⟩
  | none =>
    obtain ⟨rfl, hsink, hevents, hcapture, hhold⟩ : r = .ok .ready ∧
        v.sink = .throttled (k.append text) ∧ v.events = .append text (.ok .ready) :: u.events ∧
        v.capture = u.capture ∧ v.holdsSink = u.holdsSink := by
      rw [hc, h.sink] at ha
      cases ha
      exact ⟨rfl, rfl, rfl, hc.symm, rfl⟩
    have hcalls := RenderState.sinkCalls_cons hevents rfl
    have hstalls : v.stalls = u.stalls := (RenderState.stalls_concat hcalls).trans (List.append_nil _)
    have hdue : (k.append text).due = [] := if_neg fun hp => by
      have := (h.last _ hp).2
      simp only [Throttle.append] at this
      omega
    refine ⟨rfl, by rw [hcapture, hc], k.append text, ⟨hsink, ?_, hstalls ▸ h.pauses, ?_, fun n hn => ?_,
      hhold.trans h.hold⟩, rfl, fun hd => absurd hdue hd⟩
    · rw [RenderState.chunks_concat hcalls, List.length_append, h.writes]
      rfl
    · rw [hstalls, h.stalls, h.due_eq (hready hc), hdue, List.append_nil, chosen, chosen,
        Throttle.append, List.range_succ, List.filter_append]
      by_cases hm : k.writes ∈ k.pauseBefore <;> simp [hm]
    · obtain ⟨hn, hle⟩ := h.last n hn
      exact ⟨hn, Nat.le_succ_of_le hle⟩

theorem Governs.write {text : String} {r : Except Stop Readiness} (h : k.Governs s)
    (hp : Render.poll s = (.ok .ready, u)) (ha : Render.append text u = (r, v)) :
    r = .ok .ready ∧ v.capture.isSome = s.capture.isSome ∧ ∃ l, k.Onward s v l := by
  obtain ⟨hc, ⟨-, hl, hready⟩ | ⟨he, -⟩⟩ := h.poll hp
  · obtain ⟨hr, hc', l, hm⟩ := hl.governs.append (hc ▸ hready) ha
    exact ⟨hr, hc'.trans (by rw [hc]), l, hl.trans hm⟩
  · cases he

end Throttle

def Conduct.throttled : Conduct where
  done s u := ∀ k : Throttle, k.Governs s →
    u.capture.isSome = s.capture.isSome ∧ ∃ l, k.Onward s u l
  paused ops why s u := ∀ k : Throttle, k.Governs s → ∃ l : Throttle,
    why = .valueNotReady ∧ k.Onward s u l ∨
    why = .sinkNotReady ∧ l.Governs u ∧ l.pauseBefore = k.pauseBefore ∧ s.capture = none ∧
      ∀ op ∈ ops, op.output? = some .sink
  failed _ _ := True

open Activation in
theorem Conduct.throttled_lawful : Conduct.throttled.Lawful where
  quiet h _ k hk := ⟨by rw [h.capture], k, hk.onward h.sink h.holdsSink h.sinkCalls⟩
  andDone h h' k hk := by
    obtain ⟨hc, l, hl⟩ := h k hk
    obtain ⟨hc', m, hm⟩ := h' l hl.governs
    exact ⟨hc'.trans hc, m, hl.trans hm⟩
  andPaused h h' k hk := by
    obtain ⟨hsame, l, hl⟩ := h k hk
    obtain ⟨m, ⟨hwhy, hm⟩ | ⟨hwhy, hm, hb, hc, hat⟩⟩ := h' l hl.governs
    · exact ⟨m, .inl ⟨hwhy, hl.trans hm⟩⟩
    · exact ⟨m, .inr ⟨hwhy, hm, hb.trans hl.pauseBefore, by simpa [hc] using hsame.symm, hat⟩⟩
  andFailed _ _ := trivial
  fails _ := trivial
  lost _ := trivial
  written {s u text v} h h' k hk := by
    obtain ⟨x, hpoll, hx⟩ := awaitSink_of_hold hk.hold h
    cases x with
    | notReady => cases hx
    | ready =>
      obtain ⟨x, w, happend, h'⟩ := Render.bind_eq_ok.1 h'
      obtain ⟨hx, hw⟩ := hk.write hpoll happend
      cases hx
      cases h'
      exact hw
  refused _ _ := trivial
  putOff h _ k hk := ⟨k, .inl ⟨rfl, hk.onward h.sink h.holdsSink h.sinkCalls⟩⟩
  awaited hout _ h k hk := by
    obtain ⟨x, hpoll, hx⟩ := awaitSink_of_hold hk.hold h
    obtain ⟨-, ⟨rfl, -⟩ | ⟨-, hc, l, hl, hb⟩⟩ := hk.poll hpoll
    · cases hx
    · exact ⟨l, .inr ⟨rfl, hl, hb, hc, fun op hop => List.mem_singleton.1 hop ▸ hout⟩⟩
  returned {s u a out} h k hk := by
    obtain ⟨hc, l, hl⟩ := h k hk.within
    refine ⟨?_, l, hl.back⟩
    cases out with
    | sink => exact hc
    | buffer slot => rfl
  inside {s u a out op ops why} hout hopen h k hk := by
    obtain ⟨l, ⟨hwhy, hl⟩ | ⟨hwhy, hl, hb, hc, hat⟩⟩ := h k hk.within
    · exact ⟨l, .inl ⟨hwhy, hl.back⟩⟩
    · -- A callee that renders into a buffer has a capture in the place of the sink.
      cases out with
      | sink => exact ⟨l, .inr ⟨hwhy, hl.back, hb, hc, List.forall_mem_cons.2 ⟨hout, hat⟩⟩⟩
      | buffer slot =>
        obtain ⟨text, ht⟩ := hopen slot rfl
        simp [RenderState.within, ht, Except.toOption] at hc
  left _ := trivial

theorem Conduct.throttled_hosted : Conduct.throttled.Hosted where
  putOff h k hk := by
    obtain ⟨-, ⟨he, -⟩ | ⟨-, hc, l, hl, hb⟩⟩ := hk.poll h
    · cases he
    · exact ⟨l, .inr ⟨rfl, hl, hb, hc, fun _ hop => by cases hop⟩⟩
  written h h' _ hk := (hk.write h h').2
  refused _ _ := trivial

theorem Op.write_of_action {op : Op} (hout : op.output? = some .sink) (hcall : ¬ op.IsCall) {w : World}
    {a : Activation} {p : Nat} {act : Action} (h : a.action w p op = .ok act) :
    ∃ text q b, act = .write text q b := by
  cases op with
  | text point out s =>
    cases hout
    cases h
    exact ⟨_, _, _, rfl⟩
  | print point out c =>
    cases hout
    obtain ⟨v, -, h⟩ := Except.bind_ok_iff.1 h
    cases h
    exact ⟨_, _, _, rfl⟩
  | call point out callee base args => exact absurd ⟨_, _, _, _, _, rfl⟩ hcall
  | _ => cases hout

namespace Leads

variable {w : World} {d p : Nat} {a : Activation} {deeds : List Deed}

theorem ne_nil_of_write {op : Op} (ho : a.template.procedure.ops[p]? = some op)
    (hout : op.output? = some .sink) (hcall : ¬ op.IsCall) (h : Leads w d (.ops p a) deeds .done) :
    Deed.texts deeds ≠ [] := by
  cases h with
  | finished hn =>
    rw [ho] at hn
    cases hn
  | next hop hrest =>
    cases hop with
    | write => exact List.cons_ne_nil _ _
    | goto ho' ha =>
      cases ho.symm.trans ho'
      obtain ⟨_, _, _, he⟩ := Op.write_of_action hout hcall ha
      cases he
    | called ho' ha =>
      cases ho.symm.trans ho'
      obtain ⟨_, _, _, he⟩ := Op.write_of_action hout hcall ha
      cases he

theorem exists_callee {op : Op} {point : Nat} {c : PendingCall} {cs : List PendingCall}
    (ho : a.template.procedure.ops[p]? = some op) (hout : op.output? = some .sink) (hcall : op.IsCall)
    (hpoint : op.point? = some point) (hw : a.waiting = some (point, c :: cs))
    (h : Leads w d (.ops p a) deeds .done) : ∃ deeds', Deed.texts deeds' <+: Deed.texts deeds ∧
      Leads w (d + 1) (.template c.callee (some ⟨c.saved, cs⟩) c.params) deeds' .done := by
  obtain ⟨point, out, callee, base, args, rfl⟩ := hcall
  cases hout
  cases hpoint
  have hact : a.action w p (.call point .sink callee base args) =
      .ok (.call .sink c.callee (some ⟨c.saved, cs⟩) c.params (p + 1) { a with waiting := none }) :=
    Activation.action_of_waiting (Activation.waitingAt?_of_waiting hw)
  cases h with
  | finished hn =>
    rw [ho] at hn
    cases hn
  | next hop hrest =>
    obtain ⟨-, -, he⟩ | ⟨-, ds, rfl, ⟨err, he, -⟩ | ⟨b, -, -, hl⟩⟩ := hop.of_call ho hact
    · cases he
    · cases he
    · refine ⟨ds, ?_, hl⟩
      rw [Deed.texts_append, Deed.texts_append, a.texts_seeks]
      exact List.prefix_append _ _

end Leads

theorem Activation.restore_stands {a b : Activation} {f : Frames} {p : Nat}
    (h : a.restore f = .ok (p, b)) : b.template = a.template ∧
      (∃ live, a.template.procedure.points[f.outer.point]? = some ⟨p, live⟩) ∧
        b.waiting = if f.calls.isEmpty then none else some (f.outer.point, f.calls) := by
  obtain ⟨-, ht, -, -⟩ := restore_waiting h
  obtain ⟨e, c, he, -, -, rfl, rfl⟩ := restore_eq_ok h
  exact ⟨ht, ⟨e.live, he⟩, rfl⟩

/-- What is left of a render that was stopped where it was about to write to its sink writes something,
if it comes to its end. -/
theorem Certificate.rest_writes {lib : Library} {known : Nat → String → UInt64 → Prop}
    (cert : Certificate lib known) {w : World} (hlib : w.library = lib) {t : TemplateRef}
    {saved : SavedActivation} {calls : List PendingCall} {ops : List Op}
    (h : Frames.PausedAt lib .sinkNotReady t saved calls ops) (hops : ∀ op ∈ ops, op.output? = some .sink)
    {d : Nat} {params : Record}
    {deeds : List Deed} (hl : Leads w d (.template t (some ⟨saved, calls⟩) params) deeds .done) :
    Deed.texts deeds ≠ [] := by
  have stands : ∀ {unit name} {c : CompiledTemplate} {op : Op} {p : Nat} {saved : SavedActivation}
      {calls : List PendingCall} {d : Nat} {params : Record} {deeds : List Deed},
      lib.compiled? unit name = some c → c.procedure.ops[p]? = some op →
      op.point? = some saved.point →
      Leads w d (.template (.compiled unit name) (some ⟨saved, calls⟩) params) deeds .done →
      ∃ a : Activation, a.template.procedure.ops[p]? = some op ∧
        a.waiting = (if calls.isEmpty then none else some (saved.point, calls)) ∧
        Leads w d (.ops p a) deeds .done := by
    intro unit name c op p saved calls d params deeds hc ho hpoint hl
    cases hl with
    | resumed hc' ha hr hl =>
      cases (hlib ▸ hc).symm.trans hc'
      obtain ⟨-, rfl, -⟩ := Activation.start_eq ha
      obtain ⟨hb, ⟨live, hlive⟩, hw⟩ := Activation.restore_stands hr
      obtain ⟨live', hp, -⟩ := (cert.flow _ _ _ hc).points p op _ ho hpoint
      cases hlive.symm.trans hp
      exact ⟨_, hb ▸ ho, hw, hl⟩
  induction h generalizing d params deeds with
  | host hi hlt =>
    cases hl with
    | host hi' =>
      cases (hlib ▸ hi).symm.trans hi'
      rw [Deed.texts_write]
      exact fun hnil => Nat.not_le.2 hlt (List.drop_eq_nil_iff.1 hnil)
  | here p hc ho hpoint hcall =>
    obtain ⟨a, ho, -, hl⟩ := stands hc ho hpoint hl
    exact hl.ne_nil_of_write ho (hops _ List.mem_cons_self) (hcall rfl)
  | inside p hc ho hcall hpoint hst ih =>
    obtain ⟨a, ho, hw, hl⟩ := stands hc ho hpoint hl
    obtain ⟨hout, hops⟩ := List.forall_mem_cons.1 hops
    obtain ⟨deeds', hprefix, hcallee⟩ := hl.exists_callee ho hout hcall hpoint hw
    exact fun hnil => ih hops hcallee (List.prefix_nil.1 (hnil ▸ hprefix))

namespace Setting

variable {lib : Library} {known : Nat → String → UInt64 → Prop} (S : Setting lib known) (d : Nat)

/-- What a part of a render comes to that a throttled sink governs. If a write is due where the render
is suspended, the rest of it writes something. -/
inductive Governed (t : TemplateRef) (params : Record) (frames : Option Frames)
    (pauseBefore : List Nat) (s : RenderState) : Outcome → RenderState → Prop
  | done {k : Throttle} : Drove S.env S.asks deeds s u →
      Leads S.world d (.template t frames params) deeds .done → k.Governs u →
      k.pauseBefore = pauseBefore → k.due = [] → Governed t params frames pauseBefore s .done u
  | suspended {k : Throttle} : Drove S.env S.asks deeds s u → k.Governs u →
      k.pauseBefore = pauseBefore → u.cells[st.cell]? = some (some f) → S.Resumes t f →
      (∀ deeds' e, Leads S.world d (.template t (some f) params) deeds' e →
        Leads S.world d (.template t frames params) (deeds ++ deeds') e) →
      (k.due ≠ [] → ∀ deeds', Leads S.world d (.template t (some f) params) deeds' .done →
        Deed.texts deeds' ≠ []) →
      Governed t params frames pauseBefore s (.suspended st) u

variable {S d} {t : TemplateRef} {params : Record} {s u : RenderState} {o : Outcome}

theorem outermost_governed (hin : t.Within S.units) (hp : Record.All S.Fits params)
    (frames : Option Frames) (hf : ∀ f, frames = some f → S.Resumes t f)
    (hs : S.env.world s.bindings = S.world) (hd : s.depth = d) (hcap : s.capture = none)
    {k : Throttle} (hk : k.Governs s)
    (hdue : k.due ≠ [] → ∀ deeds, Leads S.world d (.template t frames params) deeds .done →
      Deed.texts deeds ≠ []) (h : Render.outermost S.env t frames params s = (.ok o, u)) :
    S.Governed d t params frames k.pauseBefore s o u := by
  have hleads := outermost_leads hin hp frames hf hs hd
  have hsettled := Conduct.outermost_hosted Conduct.throttled_lawful Conduct.throttled_hosted S.env t
    frames params s
  rw [h] at hleads hsettled
  -- A write that is due already keeps its promise: what is written until then is part of the rest.
  have owed : ∀ {deeds l}, Drove S.env S.asks deeds s u → k.Onward s u l → l.due ≠ [] →
      Deed.texts deeds = [] ∧ k.due ≠ [] := by
    intro deeds l hdrove hl hne
    obtain ⟨hk, hchunks⟩ := hl.due hne
    have hwritten := RenderState.chunks_of_deeds hdrove.deeds
    exact ⟨List.self_eq_append_right.1 (hchunks.symm.trans hwritten), hk⟩
  cases o with
  | done =>
    cases hleads with
    | done hw hg =>
      cases hsettled with
      | done hu =>
        obtain ⟨-, l, hl⟩ := hu k hk
        refine .done (hw.drove hcap) hg hl.governs hl.pauseBefore (not_not.1 fun hne => ?_)
        obtain ⟨hnone, hk⟩ := owed (hw.drove hcap) hl hne
        exact hdue hk _ hg hnone
  | suspended st =>
    obtain ⟨deeds, f, v, hw, hres, -, hgo, rfl, hcell⟩ := hleads.of_suspended
    obtain ⟨ops, g, w, hpaused, hst, -, hvw, hcell'⟩ := hsettled.of_suspended
    cases hcell.symm.trans hcell'
    have hdrove := (hw.drove hcap).saved (v.cells.push (some f))
    obtain ⟨l, ⟨hwhy, hl⟩ | ⟨hwhy, hl, hb, hc, hat⟩⟩ := hpaused k hk
    · have hl : k.Onward s { v with cells := v.cells.push (some f) } l := by
        rw [hvw]
        exact ⟨hl.governs.congr rfl rfl rfl, hl.pauseBefore, hl.due⟩
      refine .suspended hdrove hl.governs hl.pauseBefore hcell hres hgo fun hne deeds' hrest => ?_
      obtain ⟨hnone, hk⟩ := owed hdrove hl hne
      have hwrites := hdue hk _ (hgo _ _ hrest)
      rwa [Deed.texts_append, hnone, List.nil_append] at hwrites
    · refine .suspended hdrove ?_ hb hcell hres hgo fun _ deeds' hrest => ?_
      · rw [hvw]
        exact hl.congr rfl rfl rfl
      · exact S.cert.rest_writes library_eq (S.library ▸ hwhy ▸ hst) hat hrest

theorem Governed.trans {frames frames' : Option Frames} {pauseBefore : List Nat}
    {u v : RenderState} {deeds : List Deed} (hdrove : Drove S.env S.asks deeds s u)
    (hgo : ∀ deeds' e, Leads S.world d (.template t frames' params) deeds' e →
      Leads S.world d (.template t frames params) (deeds ++ deeds') e)
    (h : S.Governed d t params frames' pauseBefore u o v) :
    S.Governed d t params frames pauseBefore s o v := by
  cases h with
  | done hd hl hk hb hdue => exact .done (hdrove.trans hd) (hgo _ _ hl) hk hb hdue
  | suspended hd hk hb hcell hres hrest hdue =>
    refine .suspended (hdrove.trans hd) hk hb hcell hres (fun deeds' e hl => ?_) hdue
    rw [List.append_assoc]
    exact hgo _ _ (hrest _ _ hl)

theorem drives_governed (hin : t.Within S.units) (hp : Record.All S.Fits params)
    (hs : S.env.world s.bindings = S.world) (hd : s.depth = d) (hcap : s.capture = none)
    {pauseBefore : List Nat} (hsink : s.sink = .throttled (.of pauseBefore)) (hevents : s.events = [])
    {whys : List PauseReason} (h : Render.Drives S.env t params s whys o u) :
    S.Governed d t params none pauseBefore s o u := by
  induction h with
  | start h =>
    simp only [Render.start, Render.takeHold, Render.bind_apply, Render.modifyGet_apply] at h
    have hdrop : Drove S.env S.asks [] s { s with holdsSink := false } := Wrote.dropped.drove hcap
    have hnone : s.chunks = [] ∧ s.sinkCalls = [] := by
      simp [RenderState.chunks, RenderState.sinkCalls, hevents]
    have hstalls : s.stalls = [] := by
      rw [RenderState.stalls, hnone.2]
      rfl
    have hk : (Throttle.of pauseBefore).Governs { s with holdsSink := false } :=
      ⟨hsink, congrArg List.length hnone.1, congrArg List.length hstalls, hstalls,
        fun _ h => (by cases h), rfl⟩
    have := outermost_governed hin hp none (fun _ h => (by cases h))
      (hdrop.world.trans hs) (hdrop.depth.trans hd) hdrop.capture hk (fun h => absurd rfl h) h
    exact this.trans hdrop fun _ _ hl => hl
  | @resume whys st u v o _ h ih =>
    obtain ⟨f, -, hcell, h⟩ := Render.resume_eq_ok h
    cases ih with
    | @suspended _ _ _ g _ hdrove hk hb hcell' hres hgo hdue =>
      cases hcell.symm.trans hcell'
      have hk' := hk.congr (u := { u with cells := u.cells.setIfInBounds st.cell none }) rfl rfl rfl
      have := outermost_governed (s := { u with cells := u.cells.setIfInBounds st.cell none }) hin
        hp (some f)
        (fun g hg => Option.some.inj hg ▸ hres) (hdrove.world.trans hs)
        (hdrove.depth.trans hd) hdrove.capture hk' hdue h
      rw [hb] at this
      exact this.trans (hdrove.saved _) hgo

end Setting

theorem SinkCall.length_stalls (writes : Nat) (events : List Event) :
    (stalls writes (events.filterMap Event.sinkCall?)).length = events.countP Event.isUnreadyPoll := by
  induction events generalizing writes with
  | nil => rfl
  | cons e es ih =>
    rw [List.countP_cons]
    rcases e with (_ | _) | ⟨_, _ | _⟩ | _
    · exact ih writes
    · exact congrArg (· + 1) (ih writes)
    · exact ih writes
    · exact ih (writes + 1)
    all_goals exact ih writes

theorem RenderState.length_stalls (s : RenderState) :
    s.stalls.length = s.events.countP Event.isUnreadyPoll := by
  rw [stalls, sinkCalls, ← List.filterMap_reverse, SinkCall.length_stalls, List.countP_reverse]

namespace Schedule

variable {env : Env} {units : Nat → Prop}

/-- A render on a throttled sink that comes to its end makes the writes of any other one, and the sink
has put off the chosen ones of them. -/
theorem governed_of_done (hlib : env.library.IsCompiled) (hinv : env.Involves units) {unit : Nat}
    {name : String} (hu : units unit) {params : Record} {s u : RenderState} (hcap : s.capture = none)
    (hevents : s.events = []) {isReady : Nat → Nat → Bool} {pauseBefore : List Nat} {whys : List PauseReason}
    (h : Render.Drives (env.under ⟨isReady, .throttled (.of pauseBefore)⟩) (.compiled unit name) params
      { s with sink := .throttled (.of pauseBefore) } whys .done u) :
    u.stalls = (List.range u.chunks.length).filter (· ∈ pauseBefore) ∧
      ∃ k, u.sink = .throttled k ∧ k.writes = u.chunks.length ∧ k.pauses = u.stalls.length := by
  obtain ⟨cert⟩ := hlib.certificate
  let S : Setting env.library fun _ _ _ => True :=
    ⟨env.under ⟨isReady, .throttled (.of pauseBefore)⟩, s.bindings, cert, units, fun _ => True, rfl,
      ⟨hinv.template, hinv.delegate⟩, env.injected.asksOnly_all⟩
  have hgoverned := S.drives_governed (s := { s with sink := .throttled (.of pauseBefore) })
    (t := .compiled unit name) hu params.asksOnly_all rfl rfl hcap rfl hevents h
  cases hgoverned with
  | @done texts u k _ _ hk hb hdue =>
    refine ⟨?_, k, hk.sink, hk.writes.symm, hk.pauses.symm⟩
    rw [hk.stalls, hdue, List.append_nil, Throttle.chosen, hb, hk.writes]

end Schedule

/-- Every suspension has one cause. On a sink that never asks for a pause when it is written to, a
render is suspended for its value as often as a provider was not ready, and for its sink as often as
that was not ready, and nothing happens between such an answer and the suspension. In particular a
throttled sink puts off just those of the writes that were chosen, each once, and all writes are made
that are made by any other schedule, be it one by which nothing has to wait. -/
theorem Render.Drives.suspended_once_each :
    (∀ (env : Env) (t : TemplateRef) (params : Record) (s u : RenderState) (whys : List PauseReason)
      (o : Outcome), s.sink.NeverHolds → Render.Drives env t params s whys o u →
        ∃ es, u.events = es ++ s.events ∧
          whys.count .valueNotReady = es.countP Event.isUnreadyForce ∧
          whys.count .sinkNotReady = es.countP Event.isUnreadyPoll ∧
          ∀ st, o = .suspended st → ∃ e before, es = e :: before ∧ e.delay? = some st.reason) ∧
    ∀ (env : Env) (units : Nat → Prop) (unit : Nat) (name : String) (params : Record)
      (s u v : RenderState) (σ : Schedule) (pauseBefore : List Nat) (isReady : Nat → Nat → Bool)
      (fuel fuel' m n : Nat), env.library.IsCompiled → env.Involves units → units unit →
      env.library.compiled? unit name ≠ none → s.capture = none → s.events = [] →
      σ.drive env (.compiled unit name) params fuel s = (.ok (some m), v) →
      Schedule.drive ⟨isReady, .throttled (.of pauseBefore)⟩ env (.compiled unit name) params fuel' s =
        (.ok (some n), u) →
      u.chunks = v.chunks ∧ u.stalls = (List.range v.chunks.length).filter (· ∈ pauseBefore) ∧
        n = u.stalls.length + u.events.countP Event.isUnreadyForce ∧
        ∃ k, u.sink = .throttled k ∧ k.writes = v.chunks.length ∧ k.pauses = u.stalls.length := by
  refine ⟨fun env t params s u whys o hs h => h.counts hs, ?_⟩
  intro env units unit name params s u v σ pauseBefore isReady fuel fuel' m n hlib hinv hu hc hcap
    hevents hv h
  have hchunks : u.chunks = v.chunks := by
    obtain ⟨deeds, hdeeds, hl⟩ := Schedule.done_leads hlib hinv.confines hu hc hcap h
    obtain ⟨deeds', hdeeds', hl'⟩ := Schedule.done_leads hlib hinv.confines hu hc hcap hv
    rw [RenderState.chunks_of_deeds hdeeds, RenderState.chunks_of_deeds hdeeds',
      (hl.deterministic hl').1]
  obtain ⟨o, w, hstart, hfinish⟩ := Render.bind_eq_ok.1 h
  obtain ⟨whys, hdrives, rfl⟩ := (Render.Drives.start hstart).finish (Nat.zero_add _) hfinish
  obtain ⟨hstalls, k, hk⟩ := Schedule.governed_of_done hlib hinv hu hcap hevents hdrives
  obtain ⟨es, hes, hvalue, hsink, -⟩ := hdrives.counts trivial
  have hes : u.events = es := by rw [hes, hevents, List.append_nil]
  rw [hchunks] at hstalls hk
  refine ⟨hchunks, hstalls, ?_, k, hk⟩
  rw [← PauseReason.count_add_count, hsink, hvalue, RenderState.length_stalls, hes]

/-- A letter that waits once for the name of whom it is to, and for its sink before the first write and
before one that it does not make. -/
theorem Render.Drives.suspended_once_each_letter :
    let env := Env.plain .letter 1
    let letter : TemplateRef := .compiled 0 "letter"
    let params : Record := [("name", .lazy 0 (.str "Ada"))]
    let s := RenderState.initial (.buffer "")
    let fast : Schedule := ⟨fun _ _ => true, .buffer ""⟩
    let slow : Schedule := ⟨fun _ asked => 0 < asked, .throttled (.of [0, 7])⟩
    let u := (slow.drive env letter params 2 s).2
    u.stalls = [0] ∧ u.chunks = (fast.drive env letter params 0 s).2.chunks ∧
      ∃ whys, Render.Drives (env.under slow) letter params { s with sink := slow.sink } whys .done u ∧
        whys.count .sinkNotReady = 1 ∧ whys.count .valueNotReady = 1 := by
  intro env letter params s fast slow u
  have hletter : env.library.compiled? 0 "letter" ≠ none := fun h => by cases h
  have ends : ∀ {y : Except Stop (Option Nat) × RenderState} {n}, y.1.toOption.join = some n →
      y = (.ok (some n), y.2) := by
    rintro ⟨_ | _ | m, v⟩ n h <;> cases h
    rfl
  have hfast : fast.drive env letter params 0 s = (.ok (some 0), _) := ends (by decide +kernel)
  have hslow : slow.drive env letter params 2 s = (.ok (some 2), u) := ends (by decide +kernel)
  obtain ⟨hchunks, hstalls, -, -⟩ := Render.Drives.suspended_once_each.2 env (fun _ => True) 0 "letter"
    params s u _ fast [0, 7] _ 0 2 0 2 Library.letter_isCompiled (.plain _ _) trivial hletter rfl rfl
    hfast hslow
  obtain ⟨o, w, hstart, hfinish⟩ := Render.bind_eq_ok.1 hslow
  obtain ⟨whys, hdrives, -⟩ := (Render.Drives.start hstart).finish (Nat.zero_add _) hfinish
  obtain ⟨es, hes, hvalue, hsink, -⟩ :=
    Render.Drives.suspended_once_each.1 _ _ _ { s with sink := slow.sink } _ _ _ trivial hdrives
  obtain rfl : u.events = es := hes.trans (List.append_nil _)
  refine ⟨?_, hchunks, whys, hdrives, ?_, ?_⟩
  · rw [hstalls]
    decide +kernel
  · rw [hsink]
    decide +kernel
  · rw [hvalue]
    decide +kernel

end ResumableTemplates
