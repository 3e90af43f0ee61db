import ResumableTemplates.Proofs.Compile.Expression
import ResumableTemplates.Proofs.Procedure.Laid

/-! Scopes while a body is compiled. Slots and resume points are only ever added, and a block leaves
the scopes around it as they were. What a typing tells of is filled by the header or live, so it can
be saved and restored at any resume point. -/
namespace ResumableTemplates

namespace Scopes

variable {header n : Nat} {s s' : Scopes} {info : SlotInfo} {bound : List (String × Nat)}

/-- Holds of scopes in which exactly the first slots belong to the header. -/
structure Sound (header : Nat) (s : Scopes) : Prop where
  owned : ∀ sc ∈ s.stack, ∀ n ∈ sc.owned, n < s.slots.size
  kinds : ∀ (n : Nat) info, s.slots[n]? = some info →
    (info.kind.isRematerialized = true ↔ n < header)
  room : header ≤ s.slots.size

theorem Sound.mem_live (h : s.Sound header) :
    n ∈ s.live ↔ header ≤ n ∧ ∃ sc ∈ s.stack, n ∈ sc.owned := by
  simp only [live, List.mem_reverse, List.mem_filter, List.mem_flatMap]
  refine ⟨fun ⟨⟨sc, hsc, hn⟩, hk⟩ => ⟨?_, sc, hsc, hn⟩, fun ⟨hle, sc, hsc, hn⟩ => ⟨⟨sc, hsc, hn⟩, ?_⟩⟩
  · have hs := Array.getElem?_eq_getElem (h.owned sc hsc n hn)
    have := (h.kinds n _ hs).2
    simp only [kindOf?, hs, Option.map_some, Option.getD_some, Bool.not_eq_true'] at hk
    rw [hk] at this
    exact Nat.not_lt.1 fun hlt => by cases this hlt
  · have hs := Array.getElem?_eq_getElem (h.owned sc hsc n hn)
    have := mt (h.kinds n _ hs).1 (Nat.not_lt.2 hle)
    simpa only [kindOf?, hs, Option.map_some, Option.getD_some, Bool.not_eq_true',
      Bool.not_eq_true] using this

theorem Sound.live_lt (h : s.Sound header) (hn : n ∈ s.live) : header ≤ n ∧ n < s.slots.size := by
  obtain ⟨hle, sc, hsc, hown⟩ := h.mem_live.1 hn
  exact ⟨hle, h.owned sc hsc n hown⟩

theorem Sound.allocated (h : s.Sound header) (ha : s.Allocated n info bound s')
    (hkind : info.kind.isRematerialized = false) : s'.Sound header where
  owned := by
    obtain ⟨top, rest, hs, hs'⟩ := ha.stack
    have hsize : s'.slots.size = s.slots.size + 1 := by rw [ha.slots, Array.size_push]
    intro sc hsc m hm
    rw [hs'] at hsc
    rw [hsize]
    cases hsc with
    | head =>
      cases hm with
      | head => rw [ha.slot]; exact Nat.lt_succ_self _
      | tail _ hm => exact Nat.lt_succ_of_lt (h.owned top (by simp [hs]) m hm)
    | tail _ hsc => exact Nat.lt_succ_of_lt (h.owned sc (hs ▸ List.mem_cons_of_mem _ hsc) m hm)
  kinds := by
    intro m i hm
    rw [ha.slots, Array.getElem?_push] at hm
    split at hm
    · rename_i heq
      cases hm
      rw [hkind]
      have := h.room
      exact ⟨fun hf => (by cases hf), fun hlt => absurd hlt (by omega)⟩
    · exact h.kinds m i hm
  room := by
    rw [ha.slots, Array.size_push]
    exact Nat.le_succ_of_le h.room

theorem Sound.live_allocated (h : s.Sound header) (ha : s.Allocated n info bound s')
    (hkind : info.kind.isRematerialized = false) {m : Nat} :
    m ∈ s'.live ↔ m ∈ s.live ∨ m = n := by
  obtain ⟨top, rest, hs, hs'⟩ := ha.stack
  have := h.room
  rw [(h.allocated ha hkind).mem_live, h.mem_live, hs, hs']
  simp only [List.mem_cons, exists_eq_or_imp]
  have hn : header ≤ n := ha.slot ▸ h.room
  constructor
  · rintro ⟨hle, (rfl | hm) | hm⟩
    · exact .inr rfl
    · exact .inl ⟨hle, .inl hm⟩
    · exact .inl ⟨hle, .inr hm⟩
  · rintro (⟨hle, hm | hm⟩ | rfl)
    · exact ⟨hle, .inl (.inr hm)⟩
    · exact ⟨hle, .inr hm⟩
    · exact ⟨hn, .inl (.inl rfl)⟩

theorem Sound.enter (h : s.Sound header) : s.enter.2.Sound header where
  owned := by
    intro sc hsc
    cases hsc with
    | head => exact fun _ hm => by cases hm
    | tail _ hsc => exact h.owned sc hsc
  kinds := h.kinds
  room := h.room

end Scopes

structure Holds (K : Plan) (s : Scopes) (Γ : Typing) : Prop where
  sound : s.Sound K.header
  covers : ∀ n type, Γ n = some type → n < K.header ∧ type = .value ∨ n ∈ s.live

/-- Holds if, besides, every variable that can be named has a value. -/
structure Tied (K : Plan) (s : Scopes) (Γ : Typing) : Prop extends Holds K s Γ where
  typed : s.Typed Γ

section Holds

variable {K : Plan} {s s' : Scopes} {Γ Δ : Typing} {n : Nat} {info : SlotInfo}
  {bound : List (String × Nat)}

theorem Holds.values (h : Holds K s Γ) : K.Values Γ := by
  intro n type hn hlt
  obtain ⟨-, rfl⟩ | hlive := h.covers n type hn
  · rfl
  · exact absurd hlt (Nat.not_lt.2 (h.sound.live_lt hlive).1)

theorem Holds.lt_size (h : Holds K s Γ) {type : SlotType} (hn : Γ n = some type) :
    n < s.slots.size := by
  obtain ⟨hlt, -⟩ | hlive := h.covers n type hn
  · exact Nat.lt_of_lt_of_le hlt h.sound.room
  · exact (h.sound.live_lt hlive).2

theorem Holds.header_le (h : Holds K s Γ) {type : SlotType} (hn : Γ n = some type)
    (hne : type ≠ .value) : K.header ≤ n := by
  obtain ⟨-, rfl⟩ | hlive := h.covers n type hn
  · exact absurd rfl hne
  · exact (h.sound.live_lt hlive).1

theorem Holds.fresh (h : Holds K s Γ) (hn : s.slots.size ≤ n) : Γ n = none := by
  cases hΓ : Γ n with
  | none => rfl
  | some type => exact absurd (h.lt_size hΓ) (Nat.not_lt.2 hn)

theorem Holds.allocated (h : Holds K s Γ) (ha : s.Allocated n info bound s')
    (hkind : info.kind.isRematerialized = false) : Holds K s' Γ where
  sound := h.sound.allocated ha hkind
  covers m type hm := (h.covers m type hm).imp id fun hlive =>
    (h.sound.live_allocated ha hkind).2 (.inl hlive)

theorem Holds.set (h : Holds K s Γ) (hn : n ∈ s.live) (type : Option SlotType) :
    Holds K s (Γ.set n type) where
  sound := h.sound
  covers m ty hm := by
    by_cases hmn : m = n
    · exact .inr (hmn ▸ hn)
    · rw [Γ.set_other type hmn] at hm
      exact h.covers m ty hm

theorem Holds.le (h : Holds K s Δ) (hle : Γ.Le Δ) : Holds K s Γ where
  sound := h.sound
  covers n type hn := h.covers n type (hle n type hn)

theorem Tied.enter (h : Tied K s Γ) : Tied K s.enter.2 Γ where
  sound := h.sound.enter
  covers n type hn := (h.covers n type hn).imp id fun hlive => by
    obtain ⟨hle, sc, hsc, hm⟩ := h.sound.mem_live.1 hlive
    exact h.sound.enter.mem_live.2 ⟨hle, sc, List.mem_cons_of_mem _ hsc, hm⟩
  typed := by
    intro sc hsc
    cases hsc with
    | head => exact fun _ hb => by cases hb
    | tail _ hsc => exact h.typed sc hsc

theorem Tied.leave (h : Tied K s Γ) (hs' : s'.Sound K.header) {top : List Scope}
    (hstack : s'.stack = top ++ s.stack) : Tied K { s' with stack := s.stack } Γ := by
  have hsound : Scopes.Sound K.header { s' with stack := s.stack } :=
    ⟨fun sc hsc => hs'.owned sc (by simp [hstack, hsc]), hs'.kinds, hs'.room⟩
  refine ⟨⟨hsound, fun n type hn => (h.covers n type hn).imp id fun hlive => ?_⟩, h.typed⟩
  obtain ⟨hle, sc, hsc, hm⟩ := h.sound.mem_live.1 hlive
  exact hsound.mem_live.2 ⟨hle, sc, hsc, hm⟩

theorem Tied.temporary (h : Tied K s Γ) (ha : s.Allocated n info [] s')
    (hkind : info.kind.isRematerialized = false) (type : Option SlotType) :
    Tied K s' (Γ.set n type) where
  toHolds := (h.toHolds.allocated ha hkind).set
    ((h.sound.live_allocated ha hkind).2 (.inr rfl)) type
  typed := by
    obtain ⟨top, rest, hs, hs'⟩ := ha.stack
    intro sc hsc b hb
    have hb' : ∃ sc ∈ s.stack, b ∈ sc.bindings := by
      rw [hs'] at hsc
      cases hsc with
      | head => exact ⟨top, by simp [hs], hb⟩
      | tail _ hsc => exact ⟨sc, hs ▸ List.mem_cons_of_mem _ hsc, hb⟩
    obtain ⟨sc, hsc, hb⟩ := hb'
    have hΓ := h.typed sc hsc b hb
    rw [Γ.set_other type fun he => ?_, hΓ]
    have := h.lt_size hΓ
    rw [he, ha.slot] at this
    exact Nat.lt_irrefl _ this

theorem Tied.declare (h : Tied K s Γ) {name : String} (ha : s.Allocated n info [(name, n)] s')
    (hkind : info.kind.isRematerialized = false) : Tied K s' (Γ.set n (some .value)) where
  toHolds := (h.toHolds.allocated ha hkind).set
    ((h.sound.live_allocated ha hkind).2 (.inr rfl)) _
  typed := by
    obtain ⟨top, rest, hs, hs'⟩ := ha.stack
    intro sc hsc b hb
    have hb' : b = (name, n) ∨ ∃ sc ∈ s.stack, b ∈ sc.bindings := by
      rw [hs'] at hsc
      cases hsc with
      | head => exact (List.mem_cons.1 hb).imp id fun hb => ⟨top, by simp [hs], hb⟩
      | tail _ hsc => exact .inr ⟨sc, hs ▸ List.mem_cons_of_mem _ hsc, hb⟩
    obtain rfl | ⟨sc, hsc, hb⟩ := hb'
    · exact Γ.set_same _ _
    · by_cases hbn : b.2 = n
      · rw [hbn]
        exact Γ.set_same _ _
      · rw [Γ.set_other _ hbn]
        exact h.typed sc hsc b hb

end Holds

end ResumableTemplates
