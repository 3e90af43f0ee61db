import ResumableTemplates.Proofs.Compile.Origins
import ResumableTemplates.Proofs.Meaning.Expression

/-! Names while a body runs. A slot belongs to one name for good, and those that no name in scope has may
change, so what names stand for stays in place from op to op. -/
namespace ResumableTemplates

open CompileState

theorem VarRef.eq_of_name_kind {u v : VarRef} (hname : u.name = v.name) (hkind : u.kind = v.kind) :
    u = v := by
  cases u <;> cases v <;> cases hkind <;> cases hname <;> rfl

def Scopes.Agrees (s s' : Scopes) : Prop :=
  ∀ name kind, s'.lookupKind? name kind = s.lookupKind? name kind

namespace Scopes

variable {s s' : Scopes} {ρ : Names} {locals locals' : Array Local} {n : Nat} {info : SlotInfo}
  {bound : List (String × Nat)}

theorem Agrees.refl (s : Scopes) : s.Agrees s := fun _ _ => rfl

theorem Agrees.trans {s'' : Scopes} (h : s.Agrees s') (h' : s'.Agrees s'') : s.Agrees s'' :=
  fun name kind => (h' name kind).trans (h name kind)

theorem agrees_entered (σ : CompileState) : σ.scopes.Agrees σ.entered.scopes := fun _ _ => rfl

theorem kindOf?_of_grown
    (hslots : ∀ (i : Nat) info, s.slots[i]? = some info → s'.slots[i]? = some info)
    (hn : n < s.slots.size) : s'.kindOf? n = s.kindOf? n := by
  rw [kindOf?, kindOf?, hslots _ _ (Array.getElem?_eq_getElem hn), Array.getElem?_eq_getElem hn]

theorem Named.lt_size (hs : s.Named) {sc : Scope} (hsc : sc ∈ s.stack) {b : String × Nat}
    (hb : b ∈ sc.bindings) : b.2 < s.slots.size := by
  obtain ⟨info, hi, -⟩ := Option.map_eq_some_iff.1 (hs sc hsc b hb)
  exact (Array.getElem?_eq_some_iff.1 hi).1

theorem Named.filter_grown (hs : s.Named) {sc : Scope} (hsc : sc ∈ s.stack)
    (hslots : ∀ (i : Nat) info, s.slots[i]? = some info → s'.slots[i]? = some info) (name : String)
    (kind : SlotKind) :
    ((sc.bindings.lookup name).filter fun slot => s'.kindOf? slot = some kind) =
      (sc.bindings.lookup name).filter fun slot => s.kindOf? slot = some kind := by
  cases hb : sc.bindings.lookup name with
  | none => rfl
  | some slot =>
    obtain ⟨_, _, hmem, -⟩ := List.lookup_eq_some_iff.1 hb
    have hlt := hs.lt_size hsc (b := (name, slot)) (by simp [hmem])
    simp only [Option.filter_some, kindOf?_of_grown hslots hlt]

theorem Named.agrees (hs : s.Named)
    (hstack : s'.stack.map (·.bindings) = s.stack.map (·.bindings))
    (hslots : ∀ (i : Nat) info, s.slots[i]? = some info → s'.slots[i]? = some info) :
    s.Agrees s' := by
  intro name kind
  have hmap : ∀ stack : List Scope, stack.findSome? (fun sc =>
      (sc.bindings.lookup name).filter fun slot => s'.kindOf? slot = some kind) =
      (stack.map (·.bindings)).findSome? fun bindings =>
        (bindings.lookup name).filter fun slot => s'.kindOf? slot = some kind := fun stack => by
    rw [List.findSome?_map]
    rfl
  rw [lookupKind?, lookupKind?, hmap, hstack, ← hmap, ← List.head?_filterMap, ← List.head?_filterMap]
  exact congrArg List.head? (List.filterMap_congr fun sc hsc => hs.filter_grown hsc hslots name kind)

theorem Allocated.slots_grown (ha : s.Allocated n info bound s') (i : Nat) (x : SlotInfo)
    (hi : s.slots[i]? = some x) : s'.slots[i]? = some x := by
  have hlt := (Array.getElem?_eq_some_iff.1 hi).1
  rw [ha.slots, Array.getElem?_push, if_neg (Nat.ne_of_lt hlt), hi]

theorem Allocated.agrees (ha : s.Allocated n info [] s') (hs : s.Named) : s.Agrees s' := by
  obtain ⟨top, rest, hstack, hstack'⟩ := ha.stack
  exact hs.agrees (by rw [hstack, hstack']; rfl) ha.slots_grown

theorem Allocated.lookupKind?_variable {v : VarRef} {type : VarType}
    (ha : s.Allocated n ⟨v.name, type, v.kind⟩ [(v.name, n)] s') (hs : s.Named) (u : VarRef) :
    s'.lookupKind? u.name u.kind = if u = v then some n else s.lookupKind? u.name u.kind := by
  obtain ⟨top, rest, hstack, hstack'⟩ := ha.stack
  have hkind : s'.kindOf? n = some v.kind := by
    rw [kindOf?, ha.slots, ha.slot, Array.getElem?_push_size]
    rfl
  have hfresh : top.bindings.lookup v.name = none :=
    ha.fresh _ List.mem_cons_self top (by rw [hstack]; rfl)
  -- Behind the new name all is found as before.
  have hrest : (top :: rest).findSome? (fun sc =>
      (sc.bindings.lookup u.name).filter fun slot => s'.kindOf? slot = some u.kind) =
        s.lookupKind? u.name u.kind := by
    have hagrees : s.Agrees { s' with stack := s.stack } := hs.agrees rfl ha.slots_grown
    rw [← hstack]
    exact hagrees u.name u.kind
  rw [lookupKind?, hstack', ← hrest]
  simp only [List.findSome?_cons, List.singleton_append, List.lookup_cons]
  by_cases hname : u.name = v.name
  · by_cases huv : u = v
    · simp [huv, Option.filter_some, hkind]
    · have hne : v.kind ≠ u.kind := fun he => huv (VarRef.eq_of_name_kind hname he.symm)
      simp [hname, huv, Option.filter_some, hkind, hne, hfresh]
  · have huv : u ≠ v := fun he => hname (congrArg _ he)
    have hbeq : (u.name == v.name) = false := beq_false_of_ne hname
    simp [hbeq, huv]

theorem Matches.moved (h : s.Matches ρ locals) (hs : s.Agrees s')
    (hl : ∀ n kind, s.kindOf? n = some kind → kind ≠ .synthetic → locals'[n]? = locals[n]?) :
    s'.Matches ρ locals' := by
  intro v
  rw [hs, ← h v]
  refine Option.map_congr fun n hn => hl n v.kind (exists_of_lookupKind? hn).1 ?_
  cases v <;> exact fun he => by cases he

theorem Matches.declared {v : VarRef} {type : VarType} {u : Value} (h : s.Matches ρ locals)
    (hs : s.Named) (ha : s.Allocated n ⟨v.name, type, v.kind⟩ [(v.name, n)] s')
    (hn : locals[n]? = some (.value u)) : s'.Matches (ρ.bind v u) locals := by
  intro x
  rw [ha.lookupKind?_variable hs, Names.bind, List.lookup_cons]
  by_cases hx : x = v
  · simp [hx, hn]
  · have hbeq : (x == v) = false := beq_false_of_ne hx
    simp only [hx, hbeq, if_false]
    exact h x

end Scopes

def Output.Open (s : Scopes) (a : Activation) : Output → Prop
  | .sink => True
  | .buffer n => s.kindOf? n = some .synthetic ∧ ∃ text, a.locals[n]? = some (.buffer text)

/-- Holds if the second activation is the first one after a text was written to an output, and after
changes of slots from some number on. -/
structure Activation.Gains (size : Nat) (out : Output) (text : String) (a b : Activation) : Prop where
  unit : b.unit = a.unit
  template : b.template = a.template
  params : b.params = a.params
  waiting : b.waiting = a.waiting
  room : b.locals.size = a.locals.size
  kept : ∀ n < size, out ≠ .buffer n → b.locals[n]? = a.locals[n]?
  gained : ∀ n s, out = .buffer n → a.locals[n]? = some (.buffer s) →
    b.locals[n]? = some (.buffer (s ++ text))

section Gains

variable {s s' : Scopes} {a b c : Activation} {out : Output} {size size' n : Nat} {x y : String}

theorem Scopes.lt_of_kindOf? {kind : SlotKind} (h : s.kindOf? n = some kind) : n < s.slots.size := by
  obtain ⟨info, hi, -⟩ := Option.map_eq_some_iff.1 h
  exact (Array.getElem?_eq_some_iff.1 hi).1

theorem Output.Open.lt_size (h : out.Open s a) (hout : out = .buffer n) : n < s.slots.size := by
  subst hout
  exact Scopes.lt_of_kindOf? h.1

namespace Activation.Gains

theorem refl : a.Gains size out "" a :=
  ⟨rfl, rfl, rfl, rfl, rfl, fun _ _ _ => rfl, fun _ _ _ h => by rw [h, String.append_empty]⟩

theorem trans (h : a.Gains size out x b) (h' : b.Gains size' out y c) (hle : size ≤ size') :
    a.Gains size out (x ++ y) c where
  unit := h'.unit.trans h.unit
  template := h'.template.trans h.template
  params := h'.params.trans h.params
  waiting := h'.waiting.trans h.waiting
  room := h'.room.trans h.room
  kept n hn hout := (h'.kept n (Nat.lt_of_lt_of_le hn hle) hout).trans (h.kept n hn hout)
  gained n s hout hs := by rw [h'.gained n _ hout (h.gained n s hout hs), String.append_assoc]

theorem mono (h : a.Gains size out x b) (hle : size' ≤ size) : a.Gains size' out x b :=
  { h with kept := fun n hn => h.kept n (Nat.lt_of_lt_of_le hn hle) }

theorem aside (h : a.Gains size (.buffer n) x b) (hle : size' ≤ size) (hn : size' ≤ n)
    (hout : ∀ m, out = .buffer m → m < size') : a.Gains size' out "" b where
  unit := h.unit
  template := h.template
  params := h.params
  waiting := h.waiting
  room := h.room
  kept m hm _ := h.kept m (Nat.lt_of_lt_of_le hm hle) fun he => by
    cases he
    exact Nat.lt_irrefl _ (Nat.lt_of_lt_of_le hm hn)
  gained m s hm hs := by
    have hlt := hout m hm
    rw [String.append_empty, h.kept m (Nat.lt_of_lt_of_le hlt hle) fun he => ?_, hs]
    cases he
    exact Nat.lt_irrefl _ (Nat.lt_of_lt_of_le hlt hn)

theorem set (hn : size ≤ n) (hlt : n < a.locals.size) (hout : ∀ m, out = .buffer m → m < size)
    (l : Local) : ∃ b, a.set n l = .ok b ∧ a.Gains size out "" b ∧ b.locals[n]? = some l ∧
      ∀ m, m ≠ n → b.locals[m]? = a.locals[m]? := by
  have hother : ∀ m, m ≠ n → (a.locals.set n l)[m]? = a.locals[m]? := fun m hm => by
    rw [Array.getElem?_set, if_neg (Ne.symm hm)]
  refine ⟨{ a with locals := a.locals.set n l }, by rw [Activation.set, dif_pos hlt],
    ⟨rfl, rfl, rfl, rfl, by simp, fun m hm _ => hother m (by omega), fun m s hm hs => ?_⟩,
    by simp, hother⟩
  have := hout m hm
  rw [String.append_empty]
  exact (hother m (by omega)).trans hs

end Activation.Gains

theorem Output.Open.moved (h : out.Open s a) (hg : a.Gains size out x b)
    (hslots : ∀ (i : Nat) info, s.slots[i]? = some info → s'.slots[i]? = some info) :
    out.Open s' b := by
  cases out with
  | sink => trivial
  | buffer n =>
    obtain ⟨hkind, text, htext⟩ := h
    exact ⟨(Scopes.kindOf?_of_grown hslots (Scopes.lt_of_kindOf? hkind)).trans hkind, _,
      hg.gained n text rfl htext⟩

theorem Output.Open.grown (h : out.Open s a)
    (hslots : ∀ (i : Nat) info, s.slots[i]? = some info → s'.slots[i]? = some info) : out.Open s' a :=
  h.moved (.refl : a.Gains 0 out "" a) hslots

variable {unit : Nat} {t : CompiledTemplate} {ρ : Names}

theorem Activation.Stands.agrees (h : a.Stands unit t s ρ) (hs : s.Agrees s') :
    a.Stands unit t s' ρ :=
  { h with names := h.names.moved hs fun _ _ _ _ => rfl }

theorem Output.Open.kept (h : out.Open s a) (hg : a.Gains size out x b) (hsize : s.slots.size ≤ size)
    (n : Nat) (kind : SlotKind) (hn : s.kindOf? n = some kind) (hkind : kind ≠ .synthetic) :
    b.locals[n]? = a.locals[n]? := by
  refine hg.kept n (Nat.lt_of_lt_of_le (Scopes.lt_of_kindOf? hn) hsize) fun hout => ?_
  subst hout
  exact hkind (Option.some.inj (hn.symm.trans h.1))

theorem Activation.Stands.moved (h : a.Stands unit t s ρ) (hg : a.Gains size out x b)
    (hsize : s.slots.size ≤ size) (hout : out.Open s a) (hs : s.Agrees s') :
    b.Stands unit t s' ρ where
  unit := hg.unit.trans h.unit
  template := hg.template.trans h.template
  params := hg.params.trans h.params
  waiting := hg.waiting.trans h.waiting
  names := h.names.moved hs (hout.kept hg hsize)

theorem Activation.Stands.declared (h : a.Stands unit t s ρ) (hs : s.Named) {v : VarRef}
    {type : VarType} (ha : s.Allocated n ⟨v.name, type, v.kind⟩ [(v.name, n)] s') {u : Value}
    (hn : a.locals[n]? = some (.value u)) : a.Stands unit t s' (ρ.bind v u) :=
  { h with names := h.names.declared hs ha hn }

end Gains

end ResumableTemplates
