import ResumableTemplates.Proofs.Meaning.Scoping

/-! Ops next to what is written. What some ops come to is told by what an interpretation writes and
comes to; ops after ops do what the one interpretation does after the other. -/
namespace ResumableTemplates

namespace Written

variable {α β γ : Type} {f : α → Written β}

protected theorem pure_bind (a : α) (f : α → Written β) : pure a >>= f = f a := by
  simp only [Bind.bind, Pure.pure, bind, String.empty_append]

protected theorem bind_assoc (x : Written α) (f : α → Written β) (g : β → Written γ) :
    x >>= f >>= g = x >>= fun a => f a >>= g := by
  obtain ⟨text, r⟩ := x
  cases r with
  | error e => rfl
  | ok a =>
    simp only [Bind.bind, bind]
    cases (f a).result with
    | error e => rfl
    | ok b => simp only [String.append_assoc]

protected theorem id_map (x : Written α) : id <$> x = x := by
  obtain ⟨text, r⟩ := x
  cases r with
  | error e => rfl
  | ok a => exact congrArg (Written.mk · _) (String.append_empty)

instance : LawfulMonad Written :=
  LawfulMonad.mk' Written Written.id_map Written.pure_bind Written.bind_assoc

theorem bind_of_ok (text : String) (a : α) : (⟨text, .ok a⟩ : Written α) >>= f =
    ⟨text ++ (f a).text, (f a).result⟩ := rfl

@[simp] theorem lift_ok (a : α) : (liftM (.ok a : Except RenderError α) : Written α) = pure a := rfl

theorem write_empty : write "" = pure () := rfl

theorem write_append (x y : String) : write (x ++ y) = write x >>= fun _ => write y := rfl

theorem eq_of_return {x : Written α} {b c : β} (h : (x >>= fun _ => pure c).result = .ok b) :
    b = c := by
  obtain ⟨text, r⟩ := x
  cases r <;> cases h
  rfl

theorem captured_return {x : Written α} {c : β} :
    (x >>= fun _ => pure c).captured = x.captured := by
  obtain ⟨text, r⟩ := x
  cases r with
  | error e => rfl
  | ok a => exact congrArg (fun s => (⟨"", .ok s⟩ : Written String)) String.append_empty

theorem result_ok {x : Written α} {b : β} (h : (x >>= f).result = .ok b) :
    ∃ a, x.result = .ok a ∧ (f a).result = .ok b := by
  obtain ⟨text, r⟩ := x
  cases r with
  | error e => cases h
  | ok a => exact ⟨a, rfl, h⟩

theorem bind_known {x : Written (List α)} {c : γ} {f : List α → Written β} :
    x >>= f = (x >>= fun _ => pure c) >>= fun _ => f (x.result.toOption.getD []) := by
  obtain ⟨text, r⟩ := x
  cases r with
  | error e => rfl
  | ok as => rw [bind_assoc, bind_of_ok, bind_of_ok, pure_bind]; rfl

end Written

/-- Holds of the deeds that are seen of writing a text to an output: a buffer passes no text on. -/
def Output.Passes (deeds : List Deed) (text : String) : Output → Prop
  | .sink => String.join (Deed.texts deeds) = text
  | .buffer _ => Deed.texts deeds = []

theorem Output.Passes.silent {deeds : List Deed} (h : Deed.texts deeds = []) (out : Output) :
    out.Passes deeds "" := by
  cases out with
  | sink => exact congrArg String.join h
  | buffer n => exact h

theorem Output.Passes.nil (out : Output) : out.Passes [] "" := .silent rfl out

theorem Output.Passes.append {out : Output} {xs ys : List Deed} {x y : String}
    (h : out.Passes xs x) (h' : out.Passes ys y) : out.Passes (xs ++ ys) (x ++ y) := by
  cases out with
  | sink =>
    rw [Passes, Deed.texts_append, String.join_append]
    exact congrArg₂ (· ++ ·) h h'
  | buffer n => exact (Deed.texts_append xs ys).trans (List.append_eq_nil_iff.2 ⟨h, h'⟩)

theorem Path.trans {w : World} {d n m p q r : Nat} {a b c : Activation} {xs ys : List Deed}
    (h : Path w d n p a xs q b) (h' : Path w d m q b ys r c) :
    ∃ k, Path w d k p a (xs ++ ys) r c := by
  induction h with
  | nil => exact ⟨m, h'⟩
  | cons hop _ ih =>
    obtain ⟨k, hk⟩ := ih h'
    rw [List.append_assoc]
    exact ⟨k + 1, .cons hop hk⟩

theorem Output.Open.received {s : Scopes} {a : Activation} {out : Output}
    (h : out.Open s a) (size : Nat) (deeds : List Deed) :
    ∃ b, a.received deeds out = .ok b ∧ a.Gains size out (String.join (Deed.texts deeds)) b := by
  cases out with
  | sink => exact ⟨a, rfl, rfl, rfl, rfl, rfl, rfl, fun _ _ _ => rfl, fun _ _ h => by cases h⟩
  | buffer n =>
    obtain ⟨-, y, hy⟩ := h
    have hlt := (Array.getElem?_eq_some_iff.1 hy).1
    have hbuffer : a.buffer n = .ok y := by rw [Activation.buffer, hy]
    refine ⟨{ a with locals := a.locals.set n (.buffer (y ++ String.join (Deed.texts deeds))) },
      by simp [Activation.received, hbuffer, Activation.set, hlt],
      rfl, rfl, rfl, rfl, by simp, fun m hm hout => ?_, fun m s hm hs => ?_⟩
    · exact Array.getElem?_set_ne hlt fun he => hout (by rw [he])
    · cases hm
      cases hy.symm.trans hs
      simp [hlt]

/-- What ops from a position on come to that do as an interpretation says: they write its text, and
lead on to where its result is, or fail as it does. -/
inductive Does (w : World) (d size : Nat) (out : Output) (p q : Nat) (a : Activation)
    (goal : α → Activation → Prop) : Written α → Prop
  | on : Path w d n p a deeds q b → out.Passes deeds text → a.Gains size out text b → goal v b →
      Does w d size out p q a goal ⟨text, .ok v⟩
  | failed : Leads w d (.ops p a) deeds (.failed e) → out.Passes deeds text →
      Does w d size out p q a goal ⟨text, .error e⟩

namespace Does

variable {α β : Type} {w : World} {d size size' p q r : Nat} {out : Output} {a b : Activation}
  {goal : α → Activation → Prop} {goal' : β → Activation → Prop} {x : Written α} {f : α → Written β}

theorem pure {v : α} (h : goal v a) : Does w d size out p p a goal (pure v) :=
  .on .nil (.nil out) .refl h

theorem bind (h : Does w d size out p q a goal x) (hle : size ≤ size')
    (hf : ∀ v b, x.result = .ok v → a.Gains size out x.text b → goal v b →
      Does w d size' out q r b goal' (f v)) :
    Does w d size out p r a goal' (x >>= f) := by
  cases h with
  | failed hl hx => exact .failed hl hx
  | @on n deeds b text v hpath hx hab hv =>
    have hb := hf v b rfl hab hv
    rw [Written.bind_of_ok]
    generalize f v = y at hb
    cases hb with
    | failed hl hy => exact .failed (hpath.leads hl) (hx.append hy)
    | on hpath' hy hbc hg =>
      obtain ⟨k, hk⟩ := hpath.trans hpath'
      exact .on hk (hx.append hy) (hab.trans hbc hle) hg

theorem mono {goal' : α → Activation → Prop} (h : Does w d size' out p q a goal x)
    (hle : size ≤ size') (hgoal : ∀ v b, a.Gains size' out x.text b → goal v b → goal' v b) :
    Does w d size out p q a goal' x := by
  cases h with
  | failed hl hx => exact .failed hl hx
  | on hpath hx hab hv => exact .on hpath hx (hab.mono hle) (hgoal _ _ hab hv)

theorem captured {n : Nat} (h : Does w d size' (.buffer n) p q a goal x) (hle : size ≤ size')
    (hn : size ≤ n) (hout : ∀ m, out = .buffer m → m < size) :
    Does w d size out p q a (fun text b => text = x.text ∧ a.Gains size' (.buffer n) text b)
      x.captured := by
  cases h with
  | failed hl hx => exact .failed hl (.silent hx out)
  | on hpath hx hab hv => exact .on hpath (.silent hx out) (hab.aside hle hn hout) ⟨rfl, hab⟩

section Ops

variable {op : Op} (ho : a.template.procedure.ops[p]? = some op)

include ho

theorem fail {e : RenderError} (hact : a.action w p op = .error e) :
    Does w d size out p q a goal (Written.fail e) :=
  .failed (.stopped (.failed ho hact)) (.silent (a.texts_seeks w op) out)

theorem eval {β : Type} {r : Except RenderError β} {k : β → Except RenderError Action}
    {f : β → Written α} (hact : a.action w p op = r >>= k)
    (hk : ∀ v, r = .ok v → a.action w p op = k v → Does w d size out p q a goal (f v)) :
    Does w d size out p q a goal (liftM r >>= f) := by
  cases r with
  | error e => exact fail ho hact
  | ok v => exact hk v rfl hact

theorem goto {v : α} (hact : a.action w p op = .ok (.goto q b)) (hab : a.Gains size out "" b)
    (hv : goal v b) : Does w d size out p q a goal (Pure.pure v) :=
  .on (.cons (.goto ho hact) .nil) (.silent (by simp) out) hab hv

theorem after (hact : a.action w p op = .ok (.goto q b)) (hab : a.Gains size out "" b)
    (h : Does w d size out q r b goal x) : Does w d size out p r a goal x := by
  have hstep : Does w d size out p q a (fun _ c => b = c) (Pure.pure () : Written Unit) :=
    goto ho hact hab rfl
  rw [← pure_bind () fun _ => x]
  refine hstep.bind (Nat.le_refl _) fun _ c _ _ hc => ?_
  subst hc
  exact h

theorem endCapture {n m : Nat} {kind : ContentKind} {text : String} {v : α}
    (hact : a.action w p op = a.endCapture p n m kind) (htext : a.locals[n]? = some (.buffer text))
    (hn : size ≤ n) (hm : size ≤ m) (hlt : m < a.locals.size) (hout : ∀ k, out = .buffer k → k < size)
    (hgoal : ∀ b, a.Gains size out "" b →
      b.locals[m]? = some (.value (Activation.captured kind text)) → goal v b) :
    Does w d size out p (p + 1) a goal (Pure.pure v) := by
  obtain ⟨b, hb, hab, -⟩ :=
    Activation.Gains.set hn (Array.getElem?_eq_some_iff.1 htext).1 hout (.unset : Local)
  obtain ⟨c, hc, hbc, hv, -⟩ :=
    Activation.Gains.set hm (hab.room ▸ hlt) hout (.value (Activation.captured kind text))
  have hac := hab.trans hbc (Nat.le_refl _)
  refine goto ho (hact.trans ?_) hac (hgoal c hac hv)
  rw [Activation.endCapture, htext]
  simp only [hb, hc, Except.ok_bind, Except.pure_eq]

theorem store {r : Except RenderError Value} {n : Nat} (hact : a.action w p op =
      r >>= fun v => a.set n (.value v) >>= fun b => .ok (.goto (p + 1) b))
    (hn : size ≤ n) (hlt : n < a.locals.size) (hout : ∀ m, out = .buffer m → m < size) :
    Does w d size out p (p + 1) a (fun v b => b.locals[n]? = some (.value v)) (liftM r) := by
  cases r with
  | error e => exact fail ho hact
  | ok v =>
    obtain ⟨b, hb, hab, hv, -⟩ := Activation.Gains.set hn hlt hout (.value v)
    rw [Except.ok_bind, hb] at hact
    exact goto ho hact hab hv

theorem choice {β : Type} {r : Except RenderError β} {test : β → Bool} {target : Nat} {y : Written α}
    (hact : a.action w p op = r >>= fun v => .ok (.goto (if test v then p + 1 else target) a))
    (hyes : Does w d size out (p + 1) q a goal x) (hno : Does w d size out target q a goal y) :
    Does w d size out p q a goal (liftM r >>= fun v => if test v then x else y) := by
  refine eval ho hact fun v _ hact => after ho hact .refl ?_
  cases test v with
  | true => exact hyes
  | false => exact hno

theorem emit {s : Scopes} {text : String} (hact : a.action w p op = a.emit out text (p + 1))
    (hout : out.Open s a) :
    Does w d size out p (p + 1) a (fun _ _ => True) (Written.write text) := by
  obtain ⟨b, hb, hab⟩ := hout.received size [.write text]
  have htext : String.join (Deed.texts [.write text]) = text :=
    String.join_cons.trans String.append_empty
  rw [htext] at hab
  cases out with
  | sink =>
    obtain rfl := Except.ok.inj hb
    exact .on (.cons (.write ho hact) .nil) htext hab trivial
  | buffer n =>
    have hset : a.emit (.buffer n) text (p + 1) =
        a.received [.write text] (.buffer n) >>= fun b => .ok (.goto (p + 1) b) := by
      simp only [Activation.emit, Activation.received, htext, bind_assoc, Except.pure_eq]
    rw [hb] at hset
    refine .on (.cons (.goto ho (hact.trans hset)) .nil) ?_ hab trivial
    rw [Output.Passes, List.append_nil, a.texts_seeks w op]

end Ops

end Does

def CompiledTemplate.Has (t : CompiledTemplate) (p : Nat) (ops : List Op) : Prop :=
  ∀ (i : Nat) op, ops[i]? = some op → t.procedure.ops[p + i]? = some op

namespace CompiledTemplate.Has

variable {t : CompiledTemplate} {p : Nat} {op : Op} {xs ys : List Op}

theorem left (h : t.Has p (xs ++ ys)) : t.Has p xs := fun i op hi =>
  h i op (by rw [List.getElem?_append_left (List.getElem?_eq_some_iff.1 hi).1, hi])

theorem right (h : t.Has p (xs ++ ys)) : t.Has (p + xs.length) ys := fun i op hi => by
  rw [Nat.add_assoc]
  refine h _ op ?_
  rw [List.getElem?_append_right (Nat.le_add_right _ _), Nat.add_sub_cancel_left, hi]

theorem head (h : t.Has p (op :: xs)) : t.procedure.ops[p]? = some op := h 0 op rfl

theorem tail (h : t.Has p (op :: xs)) : t.Has (p + 1) xs := by
  rw [← List.singleton_append] at h
  exact h.right

end CompiledTemplate.Has

end ResumableTemplates
