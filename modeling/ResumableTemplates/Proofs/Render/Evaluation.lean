import ResumableTemplates.Proofs.Fallible
import ResumableTemplates.Proofs.Render.Effects

/-! Evaluation comes to what it does in the render's world, or it is put off: asking providers and
finding sites leaves nothing to see and does not change that world. -/
namespace ResumableTemplates

namespace Code

mutual

def parts : Code → List Code
  | binary op l r => binary op l r :: (l.parts ++ r.parts)
  | unary op e => unary op e :: e.parts
  | cond c t e => cond c t e :: (c.parts ++ t.parts ++ e.parts)
  | list cs => list cs :: partsAll cs
  | record fs => record fs :: partsFields fs
  | field b n s => field b n s :: b.parts
  | index b k => index b k :: (b.parts ++ k.parts)
  | builtin f cs => builtin f cs :: partsAll cs
  | c => [c]

def partsAll : List Code → List Code
  | [] => []
  | c :: cs => c.parts ++ partsAll cs

def partsFields : List (String × Code) → List Code
  | [] => []
  | (_, c) :: fs => c.parts ++ partsFields fs

end

theorem mem_parts (c : Code) : c ∈ c.parts := by
  cases c <;> simp [parts]

theorem exists_of_mem_partsAll {d : Code} {cs : List Code} (h : d ∈ partsAll cs) :
    ∃ c ∈ cs, d ∈ c.parts := by
  induction cs with
  | nil => cases h
  | cons c cs ih =>
    obtain h | h := List.mem_append.1 h
    · exact ⟨c, List.mem_cons_self, h⟩
    · obtain ⟨b, hb, hd⟩ := ih h
      exact ⟨b, List.mem_cons_of_mem _ hb, hd⟩

theorem exists_of_mem_partsFields {d : Code} {fs : List (String × Code)} (h : d ∈ partsFields fs) :
    ∃ f ∈ fs, d ∈ f.2.parts := by
  induction fs with
  | nil => cases h
  | cons f fs ih =>
    obtain h | h := List.mem_append.1 h
    · exact ⟨f, List.mem_cons_self, h⟩
    · obtain ⟨g, hg, hd⟩ := ih h
      exact ⟨g, List.mem_cons_of_mem _ hg, hd⟩

def Bears (room : Nat → Prop) (P : Value → Prop) (c : Code) : Prop :=
  ∀ d ∈ c.parts, match d with
    | const v => P v
    | list cs => room cs.length
    | _ => True

end Code

def Activation.Keeps (P : Value → Prop) (a : Activation) : Prop :=
  ∀ (n : Nat) v, (a.locals[n]?).bind Local.value? = some v → P v

/-- Holds if all the values that evaluation starts from have a property that it does not leave. -/
structure Supply (room : Nat → Prop) (P : Value → Prop) (w : World) (a : Activation) : Prop where
  closed : Value.Closed room P
  slots : a.Keeps P
  injected : Record.All P w.injected

theorem Activation.value_eq {a : Activation} {slot : Nat} {v : Value} (h : a.value slot = .ok v) :
    (a.locals[slot]?).bind Local.value? = some v := by
  unfold Activation.value at h
  split at h
  · rename_i hl
    cases h
    exact hl
  · cases h

theorem Activation.value_of {a : Activation} {slot : Nat} {v : Value}
    (h : a.locals[slot]? = some (.value v)) : a.value slot = .ok v := by
  rw [Activation.value, h]
  rfl

theorem Activation.variable_of {a : Activation} {slot : Nat} {v : Value}
    (h : a.locals[slot]? = some (.value v)) : a.variable slot = .ok v := by
  rw [Activation.variable, h]
  rfl

theorem Render.ofData_eq_ok {r : Except DataError α} {a : α} :
    (Render.ofData r : Except RenderError α) = .ok a ↔ r = .ok a := by
  cases r with
  | error e => exact ⟨fun h => (by cases h), fun h => (by cases h)⟩
  | ok b => exact ⟨fun h => (by cases h; rfl), fun h => h ▸ rfl⟩

section Closed

variable {room : Nat → Prop} {P : Value → Prop} {w : World} {a : Activation}
  (h : Supply room P w a)

include h

mutual

theorem Code.value_closed : {c : Code} → {v : Value} → c.Bears room P → c.value w a = .ok v → P v
  | .const u, v, hc, hv => by
    rw [Code.value] at hv
    cases hv
    exact hc (.const u) (mem_parts _)
  | .slot n, v, _, hv => by
    simp only [Code.value, Activation.variable] at hv
    split at hv
    · rename_i u hu
      cases hv
      exact h.slots n _ hu
    · cases hv
  | .injected name, v, _, hv => by
    rw [Code.value] at hv
    cases hv
    exact h.injected.read (h.closed.atom rfl) name
  | .binary op l r, v, hc, hv => by
    simp only [Code.value, Except.bind_ok_iff] at hv
    obtain ⟨x, hx, hv⟩ := hv
    have hl : P x := Code.value_closed (fun d hd => hc d (by simp [parts, hd])) hx
    split at hv
    · rename_i u hu
      cases hv
      exact h.closed.decidedBy? (h.closed.forced hl) hu
    · obtain ⟨y, hy, hv⟩ := Except.bind_ok_iff.1 hv
      have hr : P y := Code.value_closed (fun d hd => hc d (by simp [parts, hd])) hy
      exact h.closed.binary (h.closed.forced hl) (h.closed.forced hr) (Render.ofData_eq_ok.1 hv)
  | .unary op e, v, hc, hv => by
    simp only [Code.value, Except.bind_ok_iff] at hv
    obtain ⟨x, hx, hv⟩ := hv
    exact h.closed.atom (Value.isAtom_of_unary (Render.ofData_eq_ok.1 hv))
  | .cond c t e, v, hc, hv => by
    simp only [Code.value, Except.bind_ok_iff] at hv
    obtain ⟨x, hx, hv⟩ := hv
    split at hv
    · obtain ⟨y, hy, hv⟩ := Except.bind_ok_iff.1 hv
      cases hv
      exact h.closed.forced (Code.value_closed (fun d hd => hc d (by simp [parts, hd])) hy)
    · obtain ⟨y, hy, hv⟩ := Except.bind_ok_iff.1 hv
      cases hv
      exact h.closed.forced (Code.value_closed (fun d hd => hc d (by simp [parts, hd])) hy)
  | .list cs, v, hc, hv => by
    simp only [Code.value, Except.bind_ok_iff] at hv
    obtain ⟨vs, hvs, hv⟩ := hv
    cases hv
    obtain ⟨hlen, hall⟩ := Code.values_closed (fun d hd => hc d (by simp [parts, hd])) hvs
    exact h.closed.list (hlen ▸ hc (.list cs) (mem_parts _)) hall
  | .record fs, v, hc, hv => by
    simp only [Code.value, Except.bind_ok_iff] at hv
    obtain ⟨vs, hvs, hv⟩ := hv
    cases hv
    exact h.closed.record (Record.All.ofList (Code.fields_closed (fun d hd => hc d (by simp [parts, hd])) hvs))
  | .field b n s, v, hc, hv => by
    simp only [Code.value, Except.bind_ok_iff] at hv
    obtain ⟨x, hx, hv⟩ := hv
    have hb : P x := Code.value_closed (fun d hd => hc d (by simp [parts, hd])) hx
    exact h.closed.fieldOf (h.closed.forced hb) (Render.ofData_eq_ok.1 hv)
  | .index b k, v, hc, hv => by
    simp only [Code.value, Except.bind_ok_iff] at hv
    obtain ⟨x, hx, y, hy, hv⟩ := hv
    have hb : P x := Code.value_closed (fun d hd => hc d (by simp [parts, hd])) hx
    exact h.closed.itemOf (h.closed.forced hb) (Render.ofData_eq_ok.1 hv)
  | .builtin f cs, v, hc, hv => by
    simp only [Code.value, Except.bind_ok_iff] at hv
    obtain ⟨vs, hvs, hv⟩ := hv
    exact h.closed.atom (Value.isAtom_of_apply (Render.ofData_eq_ok.1 hv))
  | .template i name, v, _, hv => by
    simp only [Code.value, Except.bind_ok_iff] at hv
    obtain ⟨t, ht, hv⟩ := hv
    cases hv
    exact h.closed.atom rfl
  | .element id name none, v, _, hv => by
    simp only [Code.value] at hv
    cases hv
    exact h.closed.atom rfl
  | .element id name (some (i, table)), v, _, hv => by
    simp only [Code.value, Except.bind_ok_iff] at hv
    obtain ⟨m, hm, hv⟩ := hv
    cases hv
    exact h.closed.atom rfl

theorem Code.values_closed : {cs : List Code} → {vs : List Value} →
    (∀ d ∈ Code.partsAll cs, match d with
      | .const v => P v
      | .list cs => room cs.length
      | _ => True) →
    Code.values w a cs = .ok vs → vs.length = cs.length ∧ ∀ v ∈ vs, P v
  | [], vs, _, hv => by
    cases hv
    exact ⟨rfl, fun _ hu => (by cases hu)⟩
  | c :: cs, vs, hc, hv => by
    simp only [Code.values, Except.bind_ok_iff] at hv
    obtain ⟨x, hx, us, hus, hv⟩ := hv
    cases hv
    have hP : P x := Code.value_closed (fun d hd => hc d (by simp [partsAll, hd])) hx
    obtain ⟨hlen, hall⟩ := Code.values_closed (fun d hd => hc d (by simp [partsAll, hd])) hus
    refine ⟨by simp [hlen], fun u hu => ?_⟩
    cases hu with
    | head => exact h.closed.forced hP
    | tail _ hu => exact hall u hu

theorem Code.fields_closed : {cs : List (String × Code)} → {vs : List (String × Value)} →
    (∀ d ∈ Code.partsFields cs, match d with
      | .const v => P v
      | .list cs => room cs.length
      | _ => True) →
    Code.fields w a cs = .ok vs → ∀ v ∈ vs, P v.2
  | [], vs, _, hv => by
    cases hv
    exact fun _ hu => by cases hu
  | (k, c) :: cs, vs, hc, hv => by
    simp only [Code.fields, Except.bind_ok_iff] at hv
    obtain ⟨x, hx, us, hus, hv⟩ := hv
    cases hv
    have hP : P x := Code.value_closed (fun d hd => hc d (by simp [partsFields, hd])) hx
    have hall := Code.fields_closed (fun d hd => hc d (by simp [partsFields, hd])) hus
    intro u hu
    cases hu with
    | head => exact h.closed.forced hP
    | tail _ hu => exact hall u hu

end

theorem Code.result_closed {c : Code} {v : Value} (hc : c.Bears room P) (hv : c.result w a = .ok v) :
    P v := by
  obtain ⟨u, hu, hv⟩ := Except.bind_ok_iff.1 hv
  cases hv
  exact h.closed.forced (Code.value_closed h hc hu)

end Closed

end ResumableTemplates
