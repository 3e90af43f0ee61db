import ResumableTemplates.Proofs.Render.Fallback
import ResumableTemplates.Proofs.Render.Rendering
import ResumableTemplates.Proofs.Render.Schedules

/-! Sinks that refuse a chunk. Up to the write that is refused a render does what it would do if its
sink took everything; there it ends, however deep it is, and gives the sink's own reason. Main
statement: what the sink has taken by then is a prefix of what it would have taken. -/
namespace ResumableTemplates

def ByteWriter.unfailing (w : ByteWriter) : ByteWriter := { w with chunk := none, limit := none }

theorem ByteWriter.append_unfailing (w : ByteWriter) (bytes : Array UInt8) :
    (w.append bytes).1 = .ok () ∧ w.unfailing.append bytes = (.ok (), (w.append bytes).2.unfailing) ∨
      ∃ e, (w.append bytes).1 = .error e ∧ (w.unfailing.append bytes).1 = .ok () := by
  have hall : w.unfailing.taken bytes.size = bytes.size := rfl
  by_cases h : w.taken bytes.size = bytes.size
  · exact .inl (by simp [append, h, hall]; rfl)
  · exact .inr ⟨_, by simp only [append, h, if_false]; rfl, by simp [append, hall]⟩

namespace Sink

def unfailing : Sink → Sink
  | writer w => writer w.unfailing
  | scripted s => scripted { s with failsAt := none }
  | k => k

@[simp] theorem poll_unfailing (k : Sink) : k.unfailing.poll = (k.poll.1, k.poll.2.unfailing) := by
  cases k <;> rfl

theorem append_unfailing (k : Sink) (chunk : String) :
    (∃ r, (k.append chunk).1 = .ok r ∧
        k.unfailing.append chunk = (.ok r, (k.append chunk).2.unfailing)) ∨
      ∃ e r, (k.append chunk).1 = .error e ∧ (k.unfailing.append chunk).1 = .ok r := by
  cases k with
  | writer w =>
    simp only [append, unfailing]
    obtain ⟨h, hall⟩ | ⟨e, h, hall⟩ := w.append_unfailing chunk.toUTF8.data
    · exact .inl ⟨.ready, by rw [h]; rfl, by rw [hall]; rfl⟩
    · exact .inr ⟨e, .ready, by rw [h]; rfl, by rw [hall]; rfl⟩
  | scripted s =>
    simp only [append, unfailing, Script.append]
    by_cases h : s.failsAt = some s.writes
    · exact .inr ⟨.refused, _, by simp [h], by simp; rfl⟩
    · exact .inl ⟨_, by simp [h]; rfl, by simp [h]⟩
  | _ => exact .inl ⟨.ready, rfl, rfl⟩

end Sink

/-- Holds of what a sink has become by the calls among events, the latest first, that it has answered as
they say. -/
inductive Sink.Becomes (k : Sink) : List Event → Sink → Prop
  | same : Becomes k [] k
  | poll : Becomes k es l → Becomes k (.poll l.poll.1 :: es) l.poll.2
  | append : Becomes k es l → Becomes k (.append chunk (l.append chunk).1 :: es) (l.append chunk).2
  | aloof : e.sinkCall? = none → Becomes k es l → Becomes k (e :: es) l

namespace Sink.Becomes

variable {k l m : Sink} {xs ys : List Event}

theorem trans (h : k.Becomes xs l) (h' : l.Becomes ys m) : k.Becomes (ys ++ xs) m := by
  induction h' with
  | same => exact h
  | poll _ ih => exact .poll ih
  | append _ ih => exact .append ih
  | aloof he _ ih => exact .aloof he ih

theorem of_aloof {events : List Event} (h : ∀ e ∈ events, e.sinkCall? = none) :
    k.Becomes events k := by
  induction events with
  | nil => exact .same
  | cons e es ih => exact .aloof (h e List.mem_cons_self) (ih fun e he => h e (List.mem_cons_of_mem _ he))

theorem text (h : k.Becomes xs l) (hk : ∀ w, k ≠ .writer w) :
    (∀ w, l ≠ .writer w) ∧
      l.text = k.text ++ String.join (xs.filterMap Event.chunk?).reverse := by
  induction h with
  | same => exact ⟨hk, by simp [String.join]⟩
  | @poll es l _ ih =>
    obtain ⟨hl, htext⟩ := ih
    refine ⟨?_, ?_⟩
    · cases l <;> first | exact absurd rfl (hl _) | exact fun _ h => (by cases h)
    · rw [List.filterMap_cons_none rfl, ← htext]
      cases l with
      | throttled t =>
        simp only [Sink.poll, Throttle.poll, Sink.text]
        split <;> rfl
      | _ => rfl
  | @append es l chunk _ ih =>
    obtain ⟨hl, htext⟩ := ih
    have htaken : ∀ r, String.join ((Event.append chunk (.ok r) :: es).filterMap Event.chunk?).reverse =
        String.join (es.filterMap Event.chunk?).reverse ++ chunk := fun r => by
      have hsome : (Event.append chunk (.ok r)).chunk? = some chunk := rfl
      rw [List.filterMap_cons_some hsome, List.reverse_cons, String.join_append]
      simp [String.join]
    cases l with
    | writer w => exact absurd rfl (hl w)
    | scripted s =>
      refine ⟨fun _ h => (by cases h), ?_⟩
      simp only [Sink.append, Script.append]
      split
      · rw [List.filterMap_cons_none rfl]
        exact htext
      · rw [htaken, ← String.append_assoc, ← htext]
        rfl
    | _ =>
      refine ⟨fun _ h => (by cases h), ?_⟩
      simp only [Sink.append]
      rw [htaken, ← String.append_assoc, ← htext]
      rfl
  | @aloof es l e he _ ih =>
    have hnone : e.chunk? = none := by cases e <;> first | rfl | cases he
    rw [List.filterMap_cons_none hnone]
    exact ih

end Sink.Becomes

namespace Render

/-- Holds of the computations that have nothing to do with the sink. -/
def Aloof (r : Render α) : Prop := ∀ s : RenderState, ∃ x bindings forces new,
  (∀ e ∈ new, e.sinkCall? = none) ∧ ∀ k, r { s with sink := k } =
    (x, { s with sink := k, bindings, forces, events := new ++ s.events })

namespace Aloof

theorem still {r : Render α} {x : RenderState → Except Stop α}
    (h : ∀ (s : RenderState) k, r { s with sink := k } = (x s, { s with sink := k })) : r.Aloof :=
  fun s => ⟨x s, s.bindings, s.forces, [], fun _ h => (by cases h), fun k => h s k⟩

theorem pure (a : α) : (pure a : Render α).Aloof := still fun _ _ => rfl

theorem stop (e : Stop) : (throw e : Render α).Aloof := still fun _ _ => rfl

theorem bind {r : Render α} {f : α → Render β} (h : r.Aloof) (hf : ∀ a, r.Gives a → (f a).Aloof) :
    (r >>= f).Aloof := by
  intro s
  obtain ⟨x, bindings, forces, new, hnew, hr⟩ := h s
  cases x with
  | error e =>
    refine ⟨.error e, bindings, forces, new, hnew, fun k => ?_⟩
    rw [bind_apply, hr]
  | ok a =>
    obtain ⟨y, bindings', forces', new', hnew', hf⟩ :=
      hf a ⟨_, _, hr s.sink⟩ { s with bindings, forces, events := new ++ s.events }
    refine ⟨y, bindings', forces', new' ++ new, fun e he => ?_, fun k => ?_⟩
    · exact (List.mem_append.1 he).elim (hnew' e) (hnew e)
    · rw [bind_apply, hr, List.append_assoc]
      exact hf k

theorem note {e : Event} (h : e.sinkCall? = none) : (note e).Aloof := fun s =>
  ⟨.ok (), s.bindings, s.forces, [e], fun _ he => List.mem_singleton.1 he ▸ h, fun _ => rfl⟩

theorem ask (env : Env) (provider : Nat) : (Render.ask env provider).Aloof := fun s =>
  let asked := askProvider (env.isReady provider) provider s.forces
  ⟨.ok asked.1, s.bindings, asked.2, [.force provider asked.1],
    fun _ he => List.mem_singleton.1 he ▸ rfl, fun _ => rfl⟩

theorem asking {r : Render α} (env : Env) (provider : Nat) (h : r.Aloof) :
    (Render.asking env provider r).Aloof := by
  refine bind (ask env provider) fun isReady _ => ?_
  cases isReady with
  | true => exact h
  | false => exact stop _

theorem get {f : RenderState → Render α} (hf : ∀ s, (f s).Aloof)
    (hk : ∀ (s : RenderState) k, f { s with sink := k } = f s) : (MonadState.get >>= f).Aloof := by
  intro s
  obtain ⟨x, bindings, forces, new, hnew, h⟩ := hf s s
  refine ⟨x, bindings, forces, new, hnew, fun k => ?_⟩
  rw [bind_apply]
  exact (congrFun (hk s k) _).trans (h k)

theorem manner (env : Env) : Manner.Evaluates (fun _ r => r.Aloof) env where
  pure := pure
  fail _ := stop _
  bind := bind
  asking := asking env

end Aloof

end Render

namespace Activation

variable (env : Env) (a : Activation)

theorem bind_aloof (site : Site) (b : Binding) : (bind site b).Aloof := fun s =>
  ⟨.ok ⟨⟩, s.bindings.insert site b, s.forces, [], fun _ h => (by cases h), fun _ => rfl⟩

theorem lift_aloof (x : Except RenderError α) : (liftM x : Render α).Aloof := by
  cases x with
  | ok a => exact .pure a
  | error e => exact .stop _

theorem lookUp_aloof (use : Use) (name : String) : (lookUp env use name).Aloof := by
  refine .bind (.note rfl) fun _ _ => ?_
  cases env.lookup.template? name with
  | none => exact .stop _
  | some t => exact .pure t

theorem lookUpElement_aloof (table : String) (id : UInt64) :
    (lookUpElement env table id).Aloof := by
  refine .bind (.note rfl) fun _ _ => ?_
  cases env.lookup.element? table id with
  | none => exact .stop _
  | some m => exact .pure m

theorem resolve_aloof (use : Use) (i : Nat) (name : String) :
    (a.resolve env use i name).Aloof := by
  refine .bind (.note rfl) fun _ _ => .get (fun s => ?_) fun _ _ => rfl
  split
  · split
    · exact .pure _
    · exact lift_aloof _
  · exact lookUp_aloof env use name
  · split
    · exact lift_aloof _
    · split
      · exact .bind (bind_aloof _ _) fun _ _ => .pure _
      · exact .bind (bind_aloof _ _) fun _ _ => lookUp_aloof env use name

theorem describe_aloof (i : Nat) (table : String) (id : UInt64) :
    (a.describe env i table id).Aloof := by
  refine .get (fun s => ?_) fun _ _ => rfl
  split
  · exact .pure _
  · exact lookUpElement_aloof env table id
  · split
    · exact lift_aloof _
    · split
      · exact .bind (bind_aloof _ _) fun _ _ => .pure _
      · exact lift_aloof _
      · exact .bind (bind_aloof _ _) fun _ _ => lookUpElement_aloof env table id

theorem finds_aloof (op : Op) : Manner.Finds (fun _ r => r.Aloof) env a op where
  resolve use i name _ := a.resolve_aloof env use i name
  describe := a.describe_aloof env
  select _ _ _ _ _ _ _ _ _ := .note rfl

end Activation

def RenderState.unfailing (s : RenderState) : RenderState := { s with sink := s.sink.unfailing }

/-- What a computation comes to, beside what it comes to if the sink takes everything: the same, or it has
ended at a write that the sink has refused. -/
inductive Tracked (s : RenderState) :
    Except Stop α × RenderState → Except Stop α × RenderState → Prop
  | same (new : List Event) (hnew : u.events = new ++ s.events)
      (htaken : ∀ e ∈ new, e.refusal? = none) (hsink : s.sink.Becomes new u.sink) :
      Tracked s (x, u) (x, u.unfailing)
  | refused (chunk : String) (e : SinkError) (r : Readiness) (new later : List Event)
      (hnew : u.events = .append chunk (.error e) :: (new ++ s.events))
      (htaken : ∀ e ∈ new, e.refusal? = none)
      (hlater : u'.events = later ++ .append chunk (.ok r) :: (new ++ s.events))
      (hsink : s.sink.Becomes (.append chunk (.error e) :: new) u.sink) :
      Tracked s (.error (.failure (.sink e)), u) (x', u')

theorem Tracked.accepted {s : RenderState} {y y' : Except Stop α × RenderState} (h : Tracked s y y')
    (hsame : y' = y) (hs : s.Accepted) : y.2.Accepted := by
  cases h with
  | same new hnew htaken hsink =>
    intro e he
    rw [hnew] at he
    exact (List.mem_append.1 he).elim (htaken e) (hs e)
  | refused chunk e r new later hnew htaken hlater hsink =>
    -- The one run would have had its last write both refused and taken.
    have hevents := congrArg (fun y => RenderState.events y.2) hsame
    rw [hnew, hlater] at hevents
    obtain rfl : later = [] := List.length_eq_zero_iff.1 (by simpa using congrArg List.length hevents)
    cases (List.cons.inj hevents).1

namespace Render

def pauseCaught (f : PauseReason → α) : Except Stop α → Except Stop α
  | .error (.pause why) => .ok (f why)
  | .error (.failure e) => .error (.failure e)
  | .ok a => .ok a

/-- Holds of the computations that only add to the events, and do the same if the sink takes everything
unless they end at a write that it has refused. -/
structure Tracks (r : Render α) : Prop where
  grows : ∀ s, ∃ new, (r s).2.events = new ++ s.events
  tracked : ∀ s, Tracked s (r s) (r s.unfailing)

namespace Tracks

variable {r : Render α} {f : α → Render β}

theorem of_aloof (h : r.Aloof) : r.Tracks where
  grows s := by
    obtain ⟨x, bindings, forces, new, -, h⟩ := h s
    exact ⟨new, by rw [show r s = _ from h s.sink]⟩
  tracked s := by
    obtain ⟨x, bindings, forces, new, hnew, h⟩ := h s
    rw [show r s = _ from h s.sink, show r s.unfailing = _ from h s.sink.unfailing]
    refine .same new rfl (fun e he => ?_) (.of_aloof hnew)
    have := hnew e he
    cases e <;> first | rfl | cases this

theorem aside {x : RenderState → Except Stop α} {g : RenderState → RenderState}
    (hr : ∀ s, r s = (x s, g s)) (hx : ∀ s : RenderState, x s.unfailing = x s)
    (hg : ∀ s : RenderState, g s.unfailing = (g s).unfailing)
    (hsame : ∀ s, (g s).events = s.events ∧ (g s).sink = s.sink) : r.Tracks where
  grows s := ⟨[], by rw [hr]; exact (hsame s).1⟩
  tracked s := by
    rw [hr, hr, hx, hg]
    exact .same [] (hsame s).1 (fun _ h => (by cases h)) ((hsame s).2 ▸ .same)

theorem pure (a : α) : (pure a : Render α).Tracks := of_aloof (.pure a)

theorem stop (e : Stop) : (throw e : Render α).Tracks := of_aloof (.stop e)

theorem bind (h : r.Tracks) (hf : ∀ a, r.Gives a → (f a).Tracks) : (r >>= f).Tracks where
  grows s := by
    obtain ⟨new, hnew⟩ := h.grows s
    rw [bind_apply]
    rcases hr : r s with ⟨e | a, u⟩ <;> rw [hr] at hnew
    · exact ⟨new, hnew⟩
    · obtain ⟨new', hnew'⟩ := (hf a ⟨s, u, hr⟩).grows u
      exact ⟨new' ++ new, by rw [hnew', hnew, List.append_assoc]⟩
  tracked s := by
    have ht := h.tracked s
    rw [bind_apply, bind_apply]
    rcases hr : r s with ⟨x, u⟩
    rcases hr' : r s.unfailing with ⟨x', u'⟩
    rw [hr, hr'] at ht
    cases ht with
    | same new hnew htaken hsink =>
      cases x with
      | error e => exact .same new hnew htaken hsink
      | ok a =>
        have ht := (hf a ⟨s, u, hr⟩).tracked u
        dsimp only
        generalize f a u = y, f a u.unfailing = y' at ht
        have hboth : ∀ new' : List Event, (∀ e ∈ new', e.refusal? = none) →
            ∀ e ∈ new' ++ new, e.refusal? = none := fun new' htaken' e he =>
          (List.mem_append.1 he).elim (htaken' e) (htaken e)
        cases ht with
        | same new' hnew' htaken' hsink' =>
          exact .same (new' ++ new) (by rw [hnew', hnew, List.append_assoc]) (hboth new' htaken')
            (hsink.trans hsink')
        | refused chunk e r new' later hnew' htaken' hlater hsink' =>
          exact .refused chunk e r (new' ++ new) later (by rw [hnew', hnew, List.append_assoc])
            (hboth new' htaken') (by rw [hlater, hnew, List.append_assoc]) (hsink.trans hsink')
    | refused chunk e r new later hnew htaken hlater hsink =>
      -- The run with the other sink goes on, but what has been noted by then stays noted.
      cases x' with
      | error _ => exact .refused chunk e r new later hnew htaken hlater hsink
      | ok a =>
        obtain ⟨new', hnew'⟩ := (hf a ⟨_, _, hr'⟩).grows u'
        exact .refused chunk e r new (new' ++ later) hnew htaken
          (by rw [hnew', hlater, List.append_assoc]) hsink

theorem poll : Render.poll.Tracks := by
  refine ⟨fun s => ?_, fun s => ?_⟩
  · rw [poll_apply]
    split
    · exact ⟨[], rfl⟩
    · exact ⟨[_], rfl⟩
  · rw [poll_apply, poll_apply, show s.unfailing.capture = s.capture from rfl]
    split
    · exact .same [] rfl (fun _ h => (by cases h)) .same
    · dsimp only [RenderState.unfailing]
      rw [Sink.poll_unfailing]
      exact .same [.poll s.sink.poll.1] rfl (fun _ h => List.mem_singleton.1 h ▸ rfl) (.poll .same)

theorem append (chunk : String) : (Render.append chunk).Tracks := by
  refine ⟨fun s => ?_, fun s => ?_⟩
  · rw [append_apply]
    cases s.capture with
    | some x => exact ⟨[], rfl⟩
    | none =>
      dsimp only
      cases (s.sink.append chunk).1 <;> exact ⟨[_], rfl⟩
  · rw [append_apply, append_apply, show s.unfailing.capture = s.capture from rfl]
    cases s.capture with
    | some x => exact .same [] rfl (fun _ h => (by cases h)) .same
    | none =>
      dsimp only [RenderState.unfailing]
      have hsink : s.sink.Becomes [.append chunk (s.sink.append chunk).1] _ := .append .same
      obtain ⟨r, h, h'⟩ | ⟨e, r, h, h'⟩ := s.sink.append_unfailing chunk
      · rw [h] at hsink
        rw [h, h']
        exact .same [.append chunk (.ok r)] rfl (fun _ h => List.mem_singleton.1 h ▸ rfl) hsink
      · rw [h] at hsink
        rw [h, h']
        exact .refused chunk e r [] [] rfl (fun _ h => (by cases h)) rfl hsink

theorem around {g : RenderState → RenderState} {o : RenderState → RenderState → RenderState}
    {b : RenderState → Except Stop α → Except Stop β}
    (hg : ∀ s : RenderState, g s.unfailing = (g s).unfailing ∧ (g s).events = s.events ∧
      (g s).sink = s.sink)
    (ho : ∀ s t : RenderState, o s.unfailing t.unfailing = (o s t).unfailing ∧
      (∀ u, (o u t).events = t.events) ∧ (o s t).sink = t.sink)
    (hb : ∀ (t : RenderState) x, b t.unfailing x = b t x)
    (hfail : ∀ (t : RenderState) e, b t (.error (.failure e)) = .error (.failure e))
    (h : r.Tracks) :
    Tracks fun s => (b (r (g s)).2 (r (g s)).1, o s (r (g s)).2) where
  grows s := by
    obtain ⟨new, hnew⟩ := h.grows (g s)
    refine ⟨new, ?_⟩
    rw [(ho s _).2.1, hnew, (hg s).2.1]
  tracked s := by
    have ht := h.tracked (g s)
    obtain ⟨hsame, hevents, hsink⟩ := hg s
    rw [hsame]
    generalize r (g s) = y, r (g s).unfailing = y' at ht ⊢
    obtain ⟨x, u⟩ := y
    obtain ⟨x', u'⟩ := y'
    cases ht with
    | same new hnew htaken hafter =>
      rw [hevents] at hnew
      rw [hsink] at hafter
      rw [hb, (ho s u).1]
      exact .same new (((ho s u).2.1 _).trans hnew) htaken ((ho s u).2.2 ▸ hafter)
    | refused chunk e r new later hnew htaken hlater hafter =>
      rw [hevents] at hnew hlater
      rw [hsink] at hafter
      rw [hfail]
      exact .refused chunk e r new later (((ho s u).2.1 _).trans hnew) htaken
        (((ho s u').2.1 _).trans hlater) ((ho s u).2.2 ▸ hafter)

theorem depth : Tracks (RenderState.depth <$> get) :=
  aside (x := fun s => .ok s.depth) (g := id) (fun s => by rw [map_apply]; rfl)
    (fun _ => rfl) (fun _ => rfl) fun _ => ⟨rfl, rfl⟩

theorem deeper (env : Env) (callee : String) (h : r.Tracks) :
    (Render.deeper env callee r).Tracks := by
  have hread : Render.deeper env callee r = (RenderState.depth <$> get) >>= fun d =>
      if env.maxDepth ≤ d then Render.fail (.callDepthExceeded callee env.maxDepth)
      else fun s =>
        ((r { s with depth := s.depth + 1 }).1,
          { (r { s with depth := s.depth + 1 }).2 with
            depth := (r { s with depth := s.depth + 1 }).2.depth - 1 }) := rfl
  rw [hread]
  refine depth.bind fun d _ => ?_
  split
  · exact stop _
  · exact around (g := fun s => { s with depth := s.depth + 1 })
      (o := fun _ t => { t with depth := t.depth - 1 }) (b := fun _ x => x)
      (fun _ => ⟨rfl, rfl, rfl⟩) (fun _ _ => ⟨rfl, fun _ => rfl, rfl⟩) (fun _ _ => rfl)
      (fun _ _ => rfl) h

theorem capturing (text : String) (h : r.Tracks) : (Render.capturing text r).Tracks :=
  around (g := fun s => { s with capture := some text })
    (o := fun s t => { t with capture := s.capture })
    (b := fun t x => x.map fun a => (a, t.capture.getD "")) (fun _ => ⟨rfl, rfl, rfl⟩)
    (fun _ _ => ⟨rfl, fun _ => rfl, rfl⟩) (fun _ _ => rfl) (fun _ _ => rfl) h

theorem caught {g : Stop → Render α} {f : PauseReason → α} (h : r.Tracks)
    (hg : ∀ why, g (.pause why) = Pure.pure (f why)) (hg' : ∀ e, g (.failure e) = Render.fail e) :
    (tryCatch r g).Tracks := by
  have hcatch : tryCatch r g = fun s => (pauseCaught f (r s).1, (r s).2) := funext fun s => by
    rw [tryCatch_apply]
    rcases r s with ⟨(why | e) | a, t⟩
    · simp only [hg]
      rfl
    · simp only [hg']
      rfl
    · rfl
  rw [hcatch]
  exact around (g := id) (o := fun _ t => t) (b := fun _ => pauseCaught f)
    (fun _ => ⟨rfl, rfl, rfl⟩) (fun _ _ => ⟨rfl, fun _ => rfl, rfl⟩) (fun _ _ => rfl)
    (fun _ _ => rfl) h

theorem takeSaved (cell : Nat) : (Render.takeSaved cell).Tracks := by
  refine ⟨fun s => ?_, fun s => ?_⟩
  · rw [takeSaved_apply]
    cases (s.cells[cell]?).join <;> exact ⟨[], rfl⟩
  · rw [takeSaved_apply, takeSaved_apply, show s.unfailing.cells = s.cells from rfl]
    cases (s.cells[cell]?).join <;> exact .same [] rfl (fun _ h => (by cases h)) .same

theorem asking (env : Env) (provider : Nat) (h : r.Tracks) :
    (Render.asking env provider r).Tracks := by
  refine bind (of_aloof (.ask env provider)) fun isReady _ => ?_
  cases isReady with
  | true => exact h
  | false => exact stop _

theorem manner (env : Env) : Manner.Lawful (fun _ r => r.Tracks) env where
  pure := pure
  fail _ := stop _
  bind := bind
  asking := asking env
  stop := stop
  poll := poll
  append := append
  takeHold := aside (x := fun s => .ok s.holdsSink) (g := fun s => { s with holdsSink := false })
    (fun _ => rfl) (fun _ => rfl) (fun _ => rfl) fun _ => ⟨rfl, rfl⟩
  holdSink := aside (x := fun _ => .ok ⟨⟩) (g := fun s => { s with holdsSink := true })
    (fun _ => rfl) (fun _ => rfl) (fun _ => rfl) fun _ => ⟨rfl, rfl⟩
  probe _ _ := of_aloof (.note rfl)
  deeper callee h := deeper env callee h
  capturing text h := capturing text h
  caught := caught
  depth := depth
  suspend frames reason := aside
    (x := fun s => .ok (.suspended ⟨frames.outer.template, reason, frames.depth, s.cells.size⟩))
    (g := fun s => { s with cells := s.cells.push (some frames) })
    (fun _ => rfl) (fun _ => rfl) (fun _ => rfl) fun _ => ⟨rfl, rfl⟩
  takeSaved := takeSaved

theorem serves (env : Env) : Manner.Serves (fun _ r => r.Tracks) env := fun a op _ _ =>
  have h := a.finds_aloof env op
  { resolve := fun use i name hr => of_aloof (h.resolve use i name hr)
    describe := fun i table id => of_aloof (h.describe i table id)
    select := fun point out name variant allowEmpty base args v he =>
      of_aloof (h.select point out name variant allowEmpty base args v he) }

/-- A render that is resumed until it is over tracks its sink. -/
theorem drive (env : Env) (t : TemplateRef) (params : Record) (fuel : Nat) :
    (Render.drive env t params fuel).Tracks :=
  (manner env).andThen (Manner.start (manner env) (serves env) t params) fun o =>
    Manner.finishing (manner env) (serves env) t params fuel 0 o

end Tracks

end Render

def Event.write? : Event → Option (String × Except SinkError Readiness)
  | .append chunk answer => some (chunk, answer)
  | _ => none

def RenderState.writes (s : RenderState) : List (String × Except SinkError Readiness) :=
  (s.events.filterMap Event.write?).reverse

theorem filterMap_write {events : List Event} (h : ∀ e ∈ events, e.refusal? = none) :
    (∀ w ∈ events.filterMap Event.write?, ∃ r, w.2 = .ok r) ∧
      events.filterMap Event.chunk? = (events.filterMap Event.write?).map (·.1) := by
  induction events with
  | nil => exact ⟨fun _ h => (by cases h), rfl⟩
  | cons e es ih =>
    obtain ⟨hok, hchunks⟩ := ih fun e he => h e (List.mem_cons_of_mem _ he)
    have he := h e List.mem_cons_self
    cases e with
    | append chunk answer =>
      cases answer with
      | error e => cases he
      | ok r =>
        refine ⟨fun w hw => ?_, congrArg (chunk :: ·) hchunks⟩
        obtain rfl | hw := List.mem_cons.1 hw
        · exact ⟨r, rfl⟩
        · exact hok w hw
    | _ => exact ⟨hok, hchunks⟩

namespace Schedule

def unfailing (σ : Schedule) : Schedule := { σ with sink := σ.sink.unfailing }

/-- A sink that would take everything refuses nothing. -/
theorem unfailing_accepted (σ : Schedule) (env : Env) (t : TemplateRef) (params : Record)
    (fuel : Nat) {s : RenderState} (hs : s.Accepted) :
    (σ.unfailing.drive env t params fuel s).2.Accepted := by
  have hidem : ∀ k : Sink, k.unfailing.unfailing = k.unfailing := fun k => by cases k <;> rfl
  have ht := (Render.Tracks.drive (env.under σ) t params fuel).tracked
    { s with sink := σ.sink.unfailing }
  rw [RenderState.unfailing, hidem] at ht
  exact ht.accepted rfl hs

/-- A sink that refuses its `n`-th chunk gets the first `n` of those that it would get if it took
everything, and nothing else: the render or resume at work returns the sink's own reason, makes no further
call on it, and nothing but those chunks has come to it, whatever was being captured. -/
theorem delivers_prefix (σ : Schedule) (env : Env) (t : TemplateRef) (params : Record) (fuel : Nat)
    {s u : RenderState} {x : Except Stop (Option Nat)} (hrun : σ.drive env t params fuel s = (x, u))
    {n : Nat} {chunk : String} {e : SinkError}
    (hn : (u.writes.drop s.writes.length)[n]? = some (chunk, .error e)) :
    x = .error (.failure (.sink e)) ∧
      u.events.head? = some (.append chunk (.error e)) ∧
      ∃ chunks, (σ.unfailing.drive env t params fuel s).2.chunks = s.chunks ++ chunks ∧
        chunks[n]? = some chunk ∧ u.chunks = s.chunks ++ chunks.take n ∧
        ((∀ w, σ.sink ≠ .writer w) →
          u.sink.text = σ.sink.text ++ String.join (chunks.take n)) := by
  have ht := (Render.Tracks.drive (env.under σ) t params fuel).tracked { s with sink := σ.sink }
  change Tracked _ (σ.drive env t params fuel s) (σ.unfailing.drive env t params fuel s) at ht
  rw [hrun] at ht
  generalize σ.unfailing.drive env t params fuel s = y at ht ⊢
  obtain ⟨x', u'⟩ := y
  cases ht with
  | same new hnew htaken hsink =>
    have hwrites : u.writes = s.writes ++ (new.filterMap Event.write?).reverse := by
      simp [RenderState.writes, hnew]
    rw [hwrites, List.drop_left] at hn
    obtain ⟨r, hr⟩ := (filterMap_write htaken).1 _ (List.mem_reverse.1 (List.mem_of_getElem? hn))
    cases hr
  | refused c f r new later hnew htaken hlater hsink =>
    obtain ⟨hok, hchunks⟩ := filterMap_write htaken
    have hwrites : u.writes =
        s.writes ++ ((new.filterMap Event.write?).reverse ++ [(c, .error f)]) := by
      simp [RenderState.writes, hnew, Event.write?]
    rw [hwrites, List.drop_left, List.getElem?_append] at hn
    split at hn
    · obtain ⟨r, hr⟩ := hok _ (List.mem_reverse.1 (List.mem_of_getElem? hn))
      cases hr
    · rename_i hge
      rw [List.getElem?_singleton] at hn
      split at hn
      · rename_i hlast
        cases hn
        have hlength : (new.filterMap Event.chunk?).reverse.length = n := by
          rw [List.length_reverse, hchunks, List.length_map, ← List.length_reverse]
          omega
        have hnone : (Event.append chunk (.error e)).chunk? = none := rfl
        refine ⟨rfl, by rw [hnew]; rfl,
          (new.filterMap Event.chunk?).reverse ++ chunk :: (later.filterMap Event.chunk?).reverse,
          ?_, ?_, ?_, fun hwriter => ?_⟩
        · simp [RenderState.chunks, hlater, Event.chunk?]
        · rw [← hlength, List.getElem?_append_right (Nat.le_refl _), Nat.sub_self]
          rfl
        · rw [← hlength, List.take_left]
          simp [RenderState.chunks, hnew, List.filterMap_cons_none hnone]
        · rw [← hlength, List.take_left, (hsink.text hwriter).2, List.filterMap_cons_none hnone]
      · cases hn

/-- A page whose sink pauses it once and then refuses the text of the greeting that it calls. -/
theorem delivers_prefix_page :
    let env := Env.plain .together 1
    let page : TemplateRef := .compiled 0 "page"
    let s := RenderState.initial (.buffer "")
    let σ : Schedule := ⟨fun _ _ => true, .scripted (.of (· = 0) (fun _ => false) (some 1))⟩
    ((σ.drive env page [] 1 s).2.writes.drop s.writes.length)[1]? = some ("hi", .error .refused) ∧
      (σ.drive env page [] 1 s).1 = .error (.failure (.sink .refused)) ∧
      (σ.drive env page [] 1 s).2.chunks = ["dear "] ∧
      (σ.unfailing.drive env page [] 1 s).2.chunks = ["dear ", "hi"] := by
  intro env page s σ
  have hn : ((σ.drive env page [] 1 s).2.writes.drop s.writes.length)[1]? =
      some ("hi", .error .refused) := by decide +kernel
  have hall : (σ.unfailing.drive env page [] 1 s).2.chunks = ["dear ", "hi"] := by decide +kernel
  obtain ⟨herror, -, chunks, hchunks, -, hfirst, -⟩ :=
    delivers_prefix σ env page [] 1 (Prod.eta _).symm hn
  obtain rfl : chunks = ["dear ", "hi"] := hchunks.symm.trans hall
  exact ⟨hn, herror, hfirst, hall⟩

end Schedule

end ResumableTemplates
