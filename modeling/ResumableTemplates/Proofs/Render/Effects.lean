import ResumableTemplates.Proofs.Render.World

/-! What a computation of a render does to its state. All that a caller can see of it are its deeds,
and how much it spends of a budget: that bounds how often the providers and the sink can still put the
render off. -/
namespace ResumableTemplates

namespace Render

theorem bind_apply (r : Render α) (f : α → Render β) (s : RenderState) :
    (r >>= f) s = match r s with
      | (.ok a, t) => f a t
      | (.error e, t) => (.error e, t) := by
  simp only [bind, ExceptT.bind, ExceptT.mk, StateT.bind]
  rcases r s with ⟨_ | _, t⟩ <;> rfl

@[simp] theorem map_apply (f : α → β) (r : Render α) (s : RenderState) :
    (f <$> r) s = match r s with
      | (.ok a, t) => (.ok (f a), t)
      | (.error e, t) => (.error e, t) := by
  simp only [Functor.map, ExceptT.map, ExceptT.mk, bind, StateT.bind]
  rcases r s with ⟨_ | _, t⟩ <;> rfl

@[simp] theorem pure_apply (a : α) (s : RenderState) : (pure a : Render α) s = (.ok a, s) := rfl

@[simp] theorem fail_apply (e : RenderError) (s : RenderState) :
    (fail e : Render α) s = (.error (.failure e), s) := rfl

@[simp] theorem throw_apply (e : Stop) (s : RenderState) :
    (throw e : Render α) s = (.error e, s) := rfl

@[simp] theorem get_apply (s : RenderState) : (get : Render RenderState) s = (.ok s, s) := rfl

@[simp] theorem modify_apply (f : RenderState → RenderState) (s : RenderState) :
    (modify f : Render PUnit) s = (.ok ⟨⟩, f s) := rfl

@[simp] theorem modifyGet_apply (f : RenderState → α × RenderState) (s : RenderState) :
    (modifyGet f : Render α) s = (.ok (f s).1, (f s).2) := rfl

@[simp] theorem note_apply (e : Event) (s : RenderState) :
    note e s = (.ok (), { s with events := e :: s.events }) := rfl

def ending : Except RenderError α → Except Stop α
  | .ok a => .ok a
  | .error e => .error (.failure e)

@[simp] theorem ending_ok (a : α) : ending (.ok a) = .ok a := rfl

@[simp] theorem ending_error (e : RenderError) :
    ending (.error e : Except RenderError α) = .error (.failure e) := rfl

@[simp] theorem lift_apply (x : Except RenderError α) (s : RenderState) :
    lift x s = (ending x, s) := by
  cases x <;> rfl

@[simp] theorem liftM_apply (x : Except RenderError α) (s : RenderState) :
    (liftM x : Render α) s = (ending x, s) := lift_apply x s

theorem tryCatch_apply (r : Render α) (f : Stop → Render α) (s : RenderState) :
    (tryCatch r f) s = match r s with
      | (.ok a, t) => (.ok a, t)
      | (.error e, t) => f e t := by
  simp only [tryCatch, tryCatchThe, MonadExceptOf.tryCatch, ExceptT.tryCatch, ExceptT.mk, bind,
    StateT.bind]
  rcases r s with ⟨_ | _, t⟩ <;> rfl

end Render

/-- A bound on how often a render can still be put off, by its sink or by the providers in `asks`.
Each putting off uses it up, and nothing adds to it. -/
structure Budget (env : Env) (asks : Nat → Prop) where
  fits : Sink → Prop
  ofSink : Sink → Nat
  ofProviders : Table Nat Nat → Nat
  poll : ∀ k, fits k → fits k.poll.2 ∧ ofSink k.poll.2 ≤ ofSink k ∧
    (k.poll.1 = .notReady → ofSink k.poll.2 < ofSink k)
  append : ∀ k c, fits k → fits (k.append c).2 ∧ ofSink (k.append c).2 ≤ ofSink k ∧
    ((k.append c).1 = .ok .notReady → ofSink (k.append c).2 < ofSink k)
  ask : ∀ p forces, asks p →
    ofProviders (askProvider (env.isReady p) p forces).2 ≤ ofProviders forces ∧
      ((askProvider (env.isReady p) p forces).1 = false →
        ofProviders (askProvider (env.isReady p) p forces).2 < ofProviders forces)

def Budget.left {env : Env} {asks : Nat → Prop} (b : Budget env asks) (s : RenderState) : Nat :=
  b.ofSink s.sink + b.ofProviders s.forces + if s.holdsSink then 1 else 0

variable (env : Env) (asks : Nat → Prop)

def Spends (s t : RenderState) : Prop :=
  ∀ b : Budget env asks, b.fits s.sink → b.fits t.sink ∧ b.left t ≤ b.left s

def Pays (s t : RenderState) : Prop :=
  ∀ b : Budget env asks, b.fits s.sink → b.left t < b.left s

/-- Deeds have been done between two states, with the texts of them written to the sink or to the
capture in its place, and nothing else has happened that a caller could see. -/
structure Wrote (deeds : List Deed) (s t : RenderState) : Prop where
  capture : t.capture = s.capture.map (· ++ String.join (Deed.texts deeds))
  deeds : t.deeds = s.deeds ++ Deed.seen s.capture.isSome deeds
  depth : t.depth = s.depth
  cells : t.cells = s.cells
  world : env.world t.bindings = env.world s.bindings
  spends : Spends env asks s t

variable {env asks} {s t u : RenderState}

theorem Spends.refl : Spends env asks s s := fun _ h => ⟨h, Nat.le_refl _⟩

theorem Spends.trans (h : Spends env asks s t) (h' : Spends env asks t u) :
    Spends env asks s u := by
  intro b hb
  obtain ⟨hf, hl⟩ := h b hb
  obtain ⟨hf', hl'⟩ := h' b hf
  exact ⟨hf', Nat.le_trans hl' hl⟩

theorem Spends.of_eq (hs : t.sink = s.sink) (hf : t.forces = s.forces)
    (hh : t.holdsSink = s.holdsSink) : Spends env asks s t := by
  intro b hb
  rw [Budget.left, Budget.left, hs, hf, hh]
  exact ⟨hb, Nat.le_refl _⟩

theorem Spends.pays (h : Spends env asks s t) (h' : Pays env asks t u) : Pays env asks s u := by
  intro b hb
  obtain ⟨hf, hl⟩ := h b hb
  exact Nat.lt_of_lt_of_le (h' b hf) hl

theorem Pays.spends (h : Pays env asks s t) (hf : Spends env asks s t)
    (h' : Spends env asks t u) : Pays env asks s u :=
  fun b hb => Nat.lt_of_le_of_lt (h' b (hf b hb).1).2 (h b hb)

theorem Wrote.trans {xs ys : List Deed} (h : Wrote env asks xs s t)
    (h' : Wrote env asks ys t u) : Wrote env asks (xs ++ ys) s u where
  capture := by
    rw [h'.capture, h.capture]
    cases s.capture <;> simp [String.join_append, String.append_assoc]
  deeds := by
    rw [h'.deeds, h.deeds, h.capture, Option.isSome_map, Deed.seen_append, List.append_assoc]
  depth := h'.depth.trans h.depth
  cells := h'.cells.trans h.cells
  world := h'.world.trans h.world
  spends := h.spends.trans h'.spends

theorem Wrote.append_nil {xs : List Deed} (h : Wrote env asks xs s t)
    (h' : Wrote env asks [] t u) : Wrote env asks xs s u := by
  have := h.trans h'
  rwa [List.append_nil] at this

theorem Wrote.silent (hcapture : t.capture = s.capture) (hdeeds : t.deeds = s.deeds)
    (hdepth : t.depth = s.depth) (hcells : t.cells = s.cells)
    (hworld : env.world t.bindings = env.world s.bindings) (hspends : Spends env asks s t) :
    Wrote env asks [] s t where
  capture := by rw [hcapture]; cases s.capture <;> simp [Deed.texts]
  deeds := by rw [hdeeds, Deed.seen_nil, List.append_nil]
  depth := hdepth
  cells := hcells
  world := hworld
  spends := hspends

theorem Wrote.refl : Wrote env asks [] s s := .silent rfl rfl rfl rfl rfl .refl

theorem Wrote.note {e : Event} (h : e.chunk? = none) :
    Wrote env asks e.deed?.toList s { s with events := e :: s.events } := by
  have hseek : ∃ es : List Event, e.deed?.toList = es.map .seek := by
    cases e with
    | append chunk answer => cases answer <;> first | exact ⟨[], rfl⟩ | cases h
    | resolve site use name => cases use <;> first | exact ⟨[_], rfl⟩ | exact ⟨[], rfl⟩
    | lookup use name => cases use <;> first | exact ⟨[_], rfl⟩ | exact ⟨[], rfl⟩
    | _ => first | exact ⟨[_], rfl⟩ | exact ⟨[], rfl⟩
  obtain ⟨es, hes⟩ := hseek
  refine ⟨?_, ?_, rfl, rfl, rfl, .of_eq rfl rfl rfl⟩
  · rw [hes, Deed.texts_seek]
    cases s.capture <;> simp
  · rw [RenderState.deeds_note, hes, Deed.seen_seek]

end ResumableTemplates
