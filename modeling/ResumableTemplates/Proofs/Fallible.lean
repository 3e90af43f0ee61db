/-! Results that may be errors: what a sequence of them comes to, and two of them compared. -/
namespace ResumableTemplates

namespace Except

theorem bind_ok_iff {x : Except ε α} {f : α → Except ε β} {b : β} :
    x >>= f = .ok b ↔ ∃ a, x = .ok a ∧ f a = .ok b := by
  cases x with
  | error e => exact ⟨fun h => (by cases h), fun ⟨_, h, _⟩ => (by cases h)⟩
  | ok a => exact ⟨fun h => ⟨a, rfl, h⟩, fun ⟨_, h, hf⟩ => by cases h; exact hf⟩

@[simp] theorem pure_eq (a : α) : (pure a : Except ε α) = .ok a := rfl

@[simp] theorem ok_bind (a : α) (f : α → Except ε β) : Except.ok a >>= f = f a := rfl

@[simp] theorem error_bind (e : ε) (f : α → Except ε β) :
    (Except.error e : Except ε α) >>= f = .error e := rfl

end Except

def Paired (Q : ε → Prop) (R : α → β → Prop) : Except ε α → Except ε β → Prop
  | .ok a, .ok b => R a b
  | .error e, .error f => e = f ∧ Q e
  | _, _ => False

namespace Paired

variable {Q : ε → Prop} {R : α → β → Prop} {S : α' → β' → Prop}

theorem bind {x : Except ε α} {y : Except ε β} {f : α → Except ε α'} {g : β → Except ε β'}
    (h : Paired Q R x y) (hf : ∀ a b, R a b → Paired Q S (f a) (g b)) :
    Paired Q S (x >>= f) (y >>= g) := by
  cases x <;> cases y
  · exact h
  · exact h.elim
  · exact h.elim
  · exact hf _ _ h

theorem mono {R' : α → β → Prop} {x : Except ε α} {y : Except ε β} (h : Paired Q R x y)
    (hR : ∀ a b, R a b → R' a b) : Paired Q R' x y := by
  cases x <;> cases y
  · exact h
  · exact h
  · exact h
  · exact hR _ _ h

theorem refl {x : Except ε α} (hQ : ∀ e, x = .error e → Q e) : Paired Q Eq x x := by
  cases x with
  | error e => exact ⟨rfl, hQ e rfl⟩
  | ok a => exact rfl

theorem ok {x : Except ε α} {y : Except ε β} {a : α} (h : Paired Q R x y) (hx : x = .ok a) :
    ∃ b, y = .ok b ∧ R a b := by
  subst hx
  cases y with
  | error e => exact h.elim
  | ok b => exact ⟨b, rfl, h⟩

theorem error {x : Except ε α} {y : Except ε β} {e : ε} (h : Paired Q R x y) (hx : x = .error e) :
    y = .error e ∧ Q e := by
  subst hx
  cases y with
  | error f => exact ⟨congrArg _ h.1.symm, h.2⟩
  | ok b => exact h.elim

theorem eq {x y : Except ε α} (h : Paired Q Eq x y) : x = y := by
  cases x <;> cases y
  · exact congrArg Except.error h.1
  · exact h.elim
  · exact h.elim
  · exact congrArg Except.ok h

end Paired

end ResumableTemplates
