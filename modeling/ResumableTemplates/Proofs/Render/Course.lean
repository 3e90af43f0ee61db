import ResumableTemplates.Proofs.Render.Rendering

/-! Courses of renders: what holds between the states before and after a computation, by what stops it.
It is enough that what a template refers to keeps to a course, each site and each delegate; then every
render does, whatever it reads and wherever it stops. -/
namespace ResumableTemplates

def Event.isReference : Event → Bool
  | .resolve .. | .select .. => true
  | _ => false

def Render.stop? : Except Stop α → Option Stop
  | .ok _ => none
  | .error e => some e

structure RenderState.Aside (s t : RenderState) : Prop where
  bindings : t.bindings = s.bindings
  events : t.events = s.events

/-- What may hold between the states before and after a computation, by what stops it. -/
abbrev Course := RenderState → Option Stop → RenderState → Prop

namespace Course

variable (C : Course)

/-- Holds of the courses that computations keep to if their parts do. -/
structure Lawful : Prop where
  aside : s.Aside t → C s e t
  note : event.isReference = false → C s none { s with events := event :: s.events }
  andThen : C s none t → C t e u → C s e u
  andAside : C s e t → t.Aside u → C s e u
  caught : C s (some (.pause why)) t → C s none t

def Takes (r : Render α) : Prop := ∀ s, C s (Render.stop? (r s).1) (r s).2

structure Serves (env : Env) : Prop where
  resolve : ∀ (a : Activation) op use i name, a.IsOf env.library → op ∈ a.template.procedure.ops →
    op.Refers i name use → C.Takes (a.resolve env use i name)
  describe : ∀ (a : Activation) i table id, a.IsOf env.library → C.Takes (a.describe env i table id)
  select : ∀ (a : Activation) point out name variant allowEmpty base args v, a.IsOf env.library →
    .call point out (.delegate name variant allowEmpty) base args ∈ a.template.procedure.ops →
    C.Takes (Render.note (.select a.unit a.template.name name v))

variable {C}

namespace Takes

variable {r : Render α} {f : α → Render β}

theorem bindGives (hC : C.Lawful) (h : C.Takes r) (hf : ∀ a, r.Gives a → C.Takes (f a)) :
    C.Takes (r >>= f) := by
  intro s
  have hs := h s
  rw [Render.bind_apply]
  rcases hr : r s with ⟨_ | a, t⟩ <;> rw [hr] at hs
  · exact hs
  · exact hC.andThen hs (hf a ⟨s, t, hr⟩ t)

theorem bind (hC : C.Lawful) (h : C.Takes r) (hf : ∀ a, C.Takes (f a)) : C.Takes (r >>= f) :=
  h.bindGives hC fun a _ => hf a

variable (hC : C.Lawful)

include hC

theorem aside (h : ∀ s : RenderState, s.Aside (r s).2) : C.Takes r := fun s => hC.aside (h s)

theorem pure (a : α) : C.Takes (pure a) := aside hC fun _ => ⟨rfl, rfl⟩

theorem stop (e : Stop) : C.Takes (throw e : Render α) := aside hC fun _ => ⟨rfl, rfl⟩

theorem fail (e : RenderError) : C.Takes (Render.fail e : Render α) := stop hC _

theorem lift (x : Except RenderError α) : C.Takes (liftM x : Render α) := by
  cases x with
  | ok a => exact pure hC a
  | error e => exact fail hC e

theorem get : C.Takes (MonadState.get : Render RenderState) := aside hC fun _ => ⟨rfl, rfl⟩

theorem modifyGet {g : RenderState → α × RenderState} (h : ∀ s : RenderState, s.Aside (g s).2) :
    C.Takes (MonadState.modifyGet g : Render α) := aside hC h

theorem note {e : Event} (h : e.isReference = false) : C.Takes (Render.note e) := fun _ => hC.note h

theorem ask (env : Env) (provider : Nat) : C.Takes (Render.ask env provider) :=
  (modifyGet hC fun _ => ⟨rfl, rfl⟩).bind hC fun _ => (note hC rfl).bind hC fun _ => pure hC _

theorem asking (env : Env) (provider : Nat) (h : C.Takes r) :
    C.Takes (Render.asking env provider r) := by
  refine (ask hC env provider).bind hC fun isReady => ?_
  cases isReady with
  | true => exact h
  | false => exact stop hC _

theorem poll : C.Takes Render.poll := by
  refine (get hC).bind hC fun s => ?_
  cases s.capture with
  | some _ => exact pure hC _
  | none => exact (modifyGet hC fun _ => ⟨rfl, rfl⟩).bind hC fun _ => (note hC rfl).bind hC fun _ => pure hC _

theorem append (chunk : String) : C.Takes (Render.append chunk) := by
  refine (get hC).bind hC fun s => ?_
  cases s.capture with
  | some _ => exact (modifyGet hC fun _ => ⟨rfl, rfl⟩).bind hC fun _ => pure hC _
  | none =>
    refine (modifyGet hC fun _ => ⟨rfl, rfl⟩).bind hC fun r => (note hC rfl).bind hC fun _ => ?_
    cases r with
    | ok r => exact pure hC r
    | error e => exact fail hC _

theorem deeper (env : Env) (callee : String) (h : C.Takes r) : C.Takes (Render.deeper env callee r) := by
  refine (get hC).bind hC fun s => ?_
  split
  · exact fail hC _
  · intro s
    have hin : C s none { s with depth := s.depth + 1 } := hC.aside ⟨rfl, rfl⟩
    have hs := h { s with depth := s.depth + 1 }
    rcases hr : r { s with depth := s.depth + 1 } with ⟨x, t⟩
    rw [hr] at hs
    simp only [hr]
    exact hC.andAside (hC.andThen hin hs) ⟨rfl, rfl⟩

theorem capturing (text : String) (h : C.Takes r) : C.Takes (Render.capturing text r) := by
  intro s
  have hin : C s none { s with capture := some text } := hC.aside ⟨rfl, rfl⟩
  have hs := h { s with capture := some text }
  rcases hr : r { s with capture := some text } with ⟨x, t⟩
  rw [hr] at hs
  have hx : Render.stop? (x.map fun a => (a, t.capture.getD "")) = Render.stop? x := by
    cases x <;> rfl
  simp only [Render.capturing, hr, hx]
  exact hC.andAside (hC.andThen hin hs) ⟨rfl, rfl⟩

theorem caught {g : Stop → Render α} {f : PauseReason → α} (h : C.Takes r)
    (hg : ∀ why, g (.pause why) = Pure.pure (f why)) (hg' : ∀ e, g (.failure e) = Render.fail e) :
    C.Takes (tryCatch r g) := by
  intro s
  have hs := h s
  rw [Render.tryCatch_apply]
  rcases hr : r s with ⟨(why | e) | a, t⟩ <;> rw [hr] at hs
  · simp only [hg]
    exact hC.caught hs
  · simp only [hg']
    exact hs
  · exact hs

end Takes

variable (hC : C.Lawful) {env : Env} (a : Activation)

section Evaluation

include hC

theorem lookUp_takes (use : Use) (name : String) : C.Takes (Activation.lookUp env use name) := by
  refine (Takes.note hC rfl).bind hC fun _ => ?_
  cases env.lookup.template? name with
  | none => exact .fail hC _
  | some t => exact .pure hC t

theorem lookUpElement_takes (table : String) (id : UInt64) :
    C.Takes (Activation.lookUpElement env table id) := by
  refine (Takes.note hC rfl).bind hC fun _ => ?_
  cases env.lookup.element? table id with
  | none => exact .fail hC _
  | some m => exact .pure hC m

theorem resolve_takes {use : Use} {i : Nat} {name : String} {s : RenderState}
    (hbind : ∀ b, env.isAlive a.unit = true → C.Takes (Activation.bind (a.site i (.template name)) b))
    (hnote : C s none { s with events := .resolve (a.site i (.template name)) use name :: s.events }) :
    C s (Render.stop? (a.resolve env use i name s).1) (a.resolve env use i name s).2 := by
  rw [Activation.resolve, Render.bind_apply]
  refine hC.andThen hnote ((Takes.get hC).bind hC (fun u => ?_) _)
  split
  · split
    · exact .pure hC _
    · exact .lift hC _
  · exact lookUp_takes hC use name
  · split
    · exact .lift hC _
    · have halive : env.isAlive a.unit = true := by simp_all
      split
      · exact (hbind _ halive).bind hC fun _ => .pure hC _
      · exact (hbind _ halive).bind hC fun _ => lookUp_takes hC use name

theorem describe_takes {i : Nat} {table : String} {id : UInt64}
    (hbind : ∀ b, env.isAlive a.unit = true →
      C.Takes (Activation.bind (a.site i (.element table id)) b)) :
    C.Takes (a.describe env i table id) := by
  refine (Takes.get hC).bind hC fun u => ?_
  split
  · exact .pure hC _
  · exact lookUpElement_takes hC table id
  · split
    · exact .lift hC _
    · have halive : env.isAlive a.unit = true := by simp_all
      split
      · exact (hbind _ halive).bind hC fun _ => .pure hC _
      · exact .lift hC _
      · exact (hbind _ halive).bind hC fun _ => lookUpElement_takes hC table id

end Evaluation

section Rendering

include hC in
theorem Lawful.manner {env : Env} : Manner.Lawful (fun _ r => C.Takes r) env where
  pure := .pure hC
  fail _ := .fail hC _
  bind h hf := .bindGives hC h hf
  asking provider h := .asking hC env provider h
  stop := .stop hC
  poll := .poll hC
  append := .append hC
  takeHold := .modifyGet hC fun _ => ⟨rfl, rfl⟩
  holdSink := .modifyGet hC fun _ => ⟨rfl, rfl⟩
  probe _ _ := .note hC rfl
  deeper callee h := .deeper hC env callee h
  capturing text h := .capturing hC text h
  caught h hg hg' := .caught hC h hg hg'
  depth := .aside hC fun s => by rw [Render.map_apply]; exact ⟨rfl, rfl⟩
  suspend _ _ := .modifyGet hC fun _ => ⟨rfl, rfl⟩
  takeSaved cell := by
    refine (Takes.get hC).bind hC fun s => ?_
    cases (s.cells[cell]?).join with
    | none => exact .fail hC _
    | some f => exact (Takes.modifyGet hC fun _ => ⟨rfl, rfl⟩).bind hC fun _ => .pure hC f

theorem Serves.manner {env : Env} (hs : C.Serves env) :
    Manner.Serves (fun _ r => C.Takes r) env := fun a op ha hop =>
  { resolve := fun use i name hrefers => hs.resolve a op use i name ha hop hrefers
    describe := fun i table id => hs.describe a i table id ha
    select := fun point out name variant allowEmpty base args v he =>
      hs.select a point out name variant allowEmpty base args v ha (he ▸ hop) }

variable (hs : C.Serves env)

include hC hs

theorem start_takes (t : TemplateRef) (params : Record) : C.Takes (Render.start env t params) :=
  Manner.start hC.manner hs.manner t params

theorem resume_takes (t : TemplateRef) (params : Record) (o : Outcome) :
    C.Takes (Render.resume env t params o) := Manner.resume hC.manner hs.manner t params o

end Rendering

end Course

end ResumableTemplates
