import ResumableTemplates.Proofs.Compile.Lexical
import ResumableTemplates.Proofs.Meaning.Scoping
import Mathlib.Tactic.Abel

/-! The compiler accepts exactly the templates that keep to the scope rules and do not need more slots or
resume points than there can be. Each compilation is described by what it asks of the scopes that are
open, by what it needs and by the scopes that it leaves, and these descriptions compose. -/
namespace ResumableTemplates

open CompileState

namespace Need

def Fits (k : Need) (σ : CompileState) : Prop :=
  σ.scopes.slots.size + k.slots ≤ Scopes.limit ∧ σ.points.size + k.points ≤ Scopes.limit

end Need

structure Scopes.Shows (s : Scopes) (Γ : OpenScopes) : Prop where
  named : s.Named
  declares : ∀ v : VarRef, (s.lookupKind? v.name v.kind).isSome ↔ Γ.Declares v
  inner : ∃ top rest, s.stack = top :: rest ∧
    ∀ name, top.bindings.lookup name = none ↔ Γ.Lacks name

namespace Scopes

variable {s s' : Scopes} {Γ : OpenScopes} {top : Scope} {rest : List Scope} {n : Nat}

theorem exists_allocate {info : SlotInfo} {binds : Bool} :
    (∃ r, s.allocate top rest info binds = .ok r) ↔ s.slots.size < limit := by
  unfold allocate
  dsimp only
  split
  · exact iff_of_true ⟨_, rfl⟩ ‹_›
  · exact iff_of_false (fun ⟨_, h⟩ => by cases h) ‹_›

theorem exists_temporary (label : String) (hs : s.stack = top :: rest) :
    (∃ r, s.temporary label = .ok r) ↔ s.slots.size < limit := by
  rw [temporary, hs]
  exact exists_allocate

theorem exists_declare {name : String} {type : VarType} {kind : SlotKind}
    (hs : s.stack = top :: rest) : (∃ r, s.declare name type kind = .ok r) ↔
      top.bindings.lookup name = none ∧ s.slots.size < limit := by
  rw [declare, hs]
  dsimp only
  split
  · rename_i h
    exact iff_of_false (fun ⟨_, h⟩ => by cases h) fun hn => by simp [hn.1] at h
  · rename_i h
    have hnone : top.bindings.lookup name = none := Option.not_isSome_iff_eq_none.1 h
    rw [exists_allocate]
    exact (and_iff_right hnone).symm

namespace Shows

theorem temporary (h : s.Shows Γ) {info : SlotInfo} (ha : s.Allocated n info [] s') :
    s'.Shows Γ where
  named := ha.named h.named fun _ hb => by cases hb
  declares v := by
    rw [ha.agrees h.named]
    exact h.declares v
  inner := by
    obtain ⟨top, rest, hs, hs'⟩ := ha.stack
    obtain ⟨top', rest', hs'', hlacks⟩ := h.inner
    cases hs.symm.trans hs''
    exact ⟨_, _, hs', hlacks⟩

theorem declare (h : s.Shows Γ) {v : VarRef} {type : VarType}
    (ha : s.Allocated n ⟨v.name, type, v.kind⟩ [(v.name, n)] s') : s'.Shows (Γ.declare v) where
  named := ha.named h.named fun _ hb => List.mem_singleton.1 hb
  declares u := by
    rw [ha.lookupKind?_variable h.named]
    by_cases huv : u = v
    · simp [huv, OpenScopes.Declares, OpenScopes.declare]
    · simpa [huv, OpenScopes.Declares, OpenScopes.declare] using h.declares u
  inner := by
    obtain ⟨top, rest, hs, hs'⟩ := ha.stack
    obtain ⟨top', rest', hs'', hlacks⟩ := h.inner
    cases hs.symm.trans hs''
    refine ⟨_, _, hs', fun name => ?_⟩
    have hlacks := hlacks name
    simp only [List.singleton_append, List.lookup_cons, OpenScopes.Lacks, OpenScopes.declare,
      List.forall_mem_cons] at hlacks ⊢
    by_cases hname : name = v.name
    · simp [hname]
    · simp [beq_false_of_ne hname, hlacks, Ne.symm hname]

theorem enter (h : s.Shows Γ) : s.enter.2.Shows Γ.enter where
  named := Named.entered (σ := .of s) h.named
  declares v := by
    have hsame : s.Agrees s.enter.2 := fun _ _ => rfl
    rw [hsame, h.declares v]
    simp [OpenScopes.Declares, OpenScopes.enter]
  inner := ⟨_, _, rfl, fun name => by simp [OpenScopes.Lacks, OpenScopes.enter]⟩

theorem grown (h : s.Shows Γ) (hstack : s'.stack = s.stack)
    (hslots : ∀ (i : Nat) info, s.slots[i]? = some info → s'.slots[i]? = some info) :
    s'.Shows Γ where
  named := by
    have := Named.grown (σ := .of s) (τ := .of s') h.named hslots
    rwa [show ((CompileState.of s').left (CompileState.of s).scopes.stack).scopes = s' by
      rw [CompileState.left, CompileState.of, CompileState.of, ← hstack]] at this
  declares v := by
    rw [h.named.agrees (by rw [hstack]) hslots]
    exact h.declares v
  inner := by
    rw [hstack]
    exact h.inner

end Shows

end Scopes

namespace CompileState

structure At (σ : CompileState) (Γ : OpenScopes) : Prop where
  shows : σ.scopes.Shows Γ
  room : Need.Fits 0 σ

structure Takes (σ : CompileState) (k : Need) (τ : CompileState) : Prop where
  grows : σ.Grows τ
  scope : τ.scopes.stack.head?.map (·.id) = σ.scopes.stack.head?.map (·.id)
  slots : τ.scopes.slots.size = σ.scopes.slots.size + k.slots
  points : τ.points.size = σ.points.size + k.points

variable {σ τ υ : CompileState} {k l : Need}

theorem Takes.trans (h : σ.Takes k τ) (h' : τ.Takes l υ) : σ.Takes (k + l) υ where
  grows := h.grows.trans h'.grows
  scope := h'.scope.trans h.scope
  slots := by rw [h'.slots, h.slots, Need.add_slots, Nat.add_assoc]
  points := by rw [h'.points, h.points, Need.add_points, Nat.add_assoc]

theorem Takes.fits (h : σ.Takes k τ) : (k + l).Fits σ ↔ l.Fits τ := by
  simp only [Need.Fits, h.slots, h.points, Need.add_slots, Need.add_points, Nat.add_assoc]

theorem Takes.of_same (h : σ.Same τ) : σ.Takes 0 τ where
  grows := .of_same h
  scope := by rw [h.scopes]
  slots := by rw [h.scopes]; rfl
  points := by rw [h.points]; rfl

end CompileState

theorem Need.Fits.left {k l : Need} {σ : CompileState} (h : (k + l).Fits σ) : k.Fits σ := by
  simp only [Need.Fits, Need.add_slots, Need.add_points] at h ⊢
  omega

namespace Compile

/-- Holds of a compilation that, in some scopes, succeeds exactly if something holds and there is room for
what it needs, and that leaves some scopes then. -/
structure Admits (m : Compile α) (Γ : OpenScopes) (asks : Prop) (k : Need) (Δ : OpenScopes) :
    Prop where
  succeeds {σ : CompileState} : σ.At Γ → ((∃ a τ, m.Yields σ a τ) ↔ asks ∧ k.Fits σ)
  takes {σ : CompileState} {a : α} {τ : CompileState} : σ.At Γ → m.Yields σ a τ →
    σ.Takes k τ ∧ τ.scopes.Shows Δ

namespace Admits

variable {m : Compile α} {f : α → Compile β} {Γ Δ Θ : OpenScopes} {p q : Prop} {k l : Need}

theorem at_of_takes {σ τ : CompileState} (ht : σ.Takes k τ) (hk : k.Fits σ) (hs : τ.scopes.Shows Δ) :
    τ.At Δ where
  shows := hs
  room := by
    simp only [Need.Fits, Need.zero_slots, Need.zero_points, ht.slots, ht.points] at hk ⊢
    exact hk

theorem congr (h : m.Admits Γ p k Δ) (hp : q ↔ p) (hk : l = k) : m.Admits Γ q l Δ := by
  rw [propext hp, hk]
  exact h

theorem bind (h : m.Admits Γ p k Δ) (hf : ∀ a, (f a).Admits Δ q l Θ) :
    (m >>= f).Admits Γ (p ∧ q) (k + l) Θ where
  succeeds {σ} hσ := by
    constructor
    · rintro ⟨b, τ, hb⟩
      obtain ⟨a, υ, ha, hb⟩ := yields_bind.1 hb
      obtain ⟨hp, hk⟩ := (h.succeeds hσ).1 ⟨a, υ, ha⟩
      obtain ⟨htakes, hshows⟩ := h.takes hσ ha
      obtain ⟨hq, hl⟩ := ((hf a).succeeds (at_of_takes htakes hk hshows)).1 ⟨b, τ, hb⟩
      exact ⟨⟨hp, hq⟩, htakes.fits.2 hl⟩
    · rintro ⟨⟨hp, hq⟩, hkl⟩
      obtain ⟨a, υ, ha⟩ := (h.succeeds hσ).2 ⟨hp, hkl.left⟩
      obtain ⟨htakes, hshows⟩ := h.takes hσ ha
      obtain ⟨b, τ, hb⟩ := ((hf a).succeeds (at_of_takes htakes hkl.left hshows)).2
        ⟨hq, htakes.fits.1 hkl⟩
      exact ⟨b, τ, yields_bind.2 ⟨a, υ, ha, hb⟩⟩
  takes {σ b τ} hσ hb := by
    obtain ⟨a, υ, ha, hb⟩ := yields_bind.1 hb
    obtain ⟨htakes, hshows⟩ := h.takes hσ ha
    have hk := ((h.succeeds hσ).1 ⟨a, υ, ha⟩).2
    obtain ⟨htakes', hshows'⟩ := (hf a).takes (at_of_takes htakes hk hshows) hb
    exact ⟨htakes.trans htakes', hshows'⟩

theorem of_isQuiet (hm : m.IsQuiet) (hp : ∀ {σ}, σ.At Γ → ((∃ a τ, m.Yields σ a τ) ↔ p)) :
    m.Admits Γ p 0 Γ where
  succeeds hσ := (hp hσ).trans (iff_self_and.2 fun _ => hσ.room)
  takes {σ a τ} hσ h := by
    have hsame := hm σ a τ h
    exact ⟨.of_same hsame, hsame.scopes ▸ hσ.shows⟩

theorem pure (a : α) : (Pure.pure a : Compile α).Admits Γ True 0 Γ :=
  .of_isQuiet (.pure a) fun _ => iff_true_intro ⟨_, _, yields_pure.2 ⟨rfl, rfl⟩⟩

theorem map (g : α → β) (h : m.Admits Γ p k Δ) : (g <$> m).Admits Γ p k Δ := by
  rw [map_eq_pure_bind]
  exact (h.bind fun a => .pure (g a)).congr (by simp) (add_zero k).symm

theorem place : Compile.place.Admits Γ True 0 Γ where
  succeeds {σ} hσ := iff_of_true ⟨(), σ.placed, yields_place.2 rfl⟩ ⟨trivial, hσ.room⟩
  takes hσ h := by
    rw [yields_place.1 h]
    exact ⟨⟨.placed, rfl, rfl, rfl⟩, hσ.shows⟩

theorem here : Compile.here.Admits Γ True 0 Γ where
  succeeds {σ} hσ := iff_of_true ⟨_, σ, yields_here.2 ⟨rfl, rfl⟩⟩ ⟨trivial, hσ.room⟩
  takes hσ h := by
    rw [(yields_here.1 h).2]
    exact ⟨.of_same (.refl _), hσ.shows⟩

theorem placePoint : Compile.placePoint.Admits Γ True .point Γ where
  succeeds {σ} hσ := by
    have hroom := hσ.room
    simp only [Need.Fits, Need.zero_slots, Need.zero_points, Need.point_slots, Need.point_points]
      at hroom ⊢
    constructor
    · rintro ⟨n, τ, h⟩
      obtain ⟨_, _, hget, hset⟩ := yields_bind.1 h
      obtain ⟨rfl, rfl⟩ := yields_get.1 hget
      dsimp only at hset
      split at hset
      · exact ⟨trivial, hroom.1, ‹_›⟩
      · exact (not_yields_contradiction hset).elim
    · rintro ⟨-, -, hlt⟩
      refine ⟨σ.points.size, σ.pointed, yields_bind.2 ⟨σ, σ, yields_get.2 ⟨rfl, rfl⟩, ?_⟩⟩
      rw [if_pos (Nat.lt_of_succ_le hlt)]
      exact rfl
  takes {σ n τ} hσ h := by
    obtain ⟨-, rfl⟩ := yields_placePoint h
    exact ⟨⟨.pointed, rfl, rfl, by simp⟩, hσ.shows⟩

theorem contradiction (i : Inconsistency) :
    (Compile.contradiction i : Compile α).Admits Γ False k Δ where
  succeeds _ := iff_of_false (fun ⟨_, _, h⟩ => not_yields_contradiction h) fun h => h.1
  takes _ h := (not_yields_contradiction h).elim

theorem onScopes {f : Scopes → Except CompileError (Nat × Scopes)}
    (hf : ∀ s, s.Shows Γ → ((∃ r, f s = .ok r) ↔ p ∧ s.slots.size < Scopes.limit))
    (ha : ∀ s n s', s.Shows Γ → f s = .ok (n, s') →
      (∃ info bound, s.Allocated n info bound s') ∧ s'.Shows Δ) :
    (Compile.onScopes f).Admits Γ p .slot Δ where
  succeeds {σ} hσ := by
    have hroom := hσ.room
    simp only [Need.Fits, Need.zero_slots, Need.zero_points, Need.slot_slots, Need.slot_points]
      at hroom ⊢
    constructor
    · rintro ⟨n, τ, h⟩
      obtain ⟨s, hs, -⟩ := yields_onScopes.1 h
      obtain ⟨hp, hlt⟩ := (hf _ hσ.shows).1 ⟨_, hs⟩
      exact ⟨hp, hlt, hroom.2⟩
    · rintro ⟨hp, hlt, -⟩
      obtain ⟨⟨n, s⟩, hs⟩ := (hf _ hσ.shows).2 ⟨hp, hlt⟩
      exact ⟨n, _, yields_onScopes.2 ⟨s, hs, rfl⟩⟩
  takes {σ n τ} hσ h := by
    obtain ⟨s, hs, rfl⟩ := yields_onScopes.1 h
    obtain ⟨⟨info, bound, halloc⟩, hshows⟩ := ha _ n s hσ.shows hs
    obtain ⟨top, rest, hstack, hstack'⟩ := halloc.stack
    refine ⟨⟨.allocated halloc, ?_, halloc.size, rfl⟩, hshows⟩
    simp only [hstack, hstack', List.head?_cons, Option.map_some]

theorem temporary (label : String) : (Compile.temporary label).Admits Γ True .slot Γ := by
  apply onScopes
  · intro s hs
    obtain ⟨top, rest, hstack, -⟩ := hs.inner
    rw [Scopes.exists_temporary label hstack, true_and]
  · intro s n s' hs h
    have ha := Scopes.temporary_ok h
    exact ⟨⟨_, _, ha⟩, hs.temporary ha⟩

theorem declare (v : VarRef) (type : VarType) :
    (Compile.onScopes (·.declare v.name type v.kind)).Admits Γ (Γ.Lacks v.name) .slot
      (Γ.declare v) := by
  apply onScopes
  · intro s hs
    obtain ⟨top, rest, hstack, hlacks⟩ := hs.inner
    rw [Scopes.exists_declare hstack, hlacks]
  · intro s n s' hs h
    have ha := Scopes.declare_ok h
    exact ⟨⟨_, _, ha⟩, hs.declare ha⟩

theorem exists_exit {σ υ : CompileState} {a : α} (ht : σ.entered.Takes k υ) (hs : υ.scopes.Shows Δ)
    (ha : m.Yields σ.entered a υ) : (Compile.inScope m).Yields σ a (υ.left σ.scopes.stack) := by
  obtain ⟨top, rest, hstack, -⟩ := hs.inner
  have hid : top.id = σ.scopes.nextId := by
    have := ht.scope
    rw [hstack] at this
    exact Option.some.inj this
  obtain rfl := ht.grows.stack hstack
  have hexit : υ.scopes.exit σ.scopes.nextId = .ok { υ.scopes with stack := σ.scopes.stack } := by
    rw [Scopes.exit, hstack]
    exact if_pos hid
  rw [Compile.inScope, yields_bind]
  refine ⟨σ.scopes.nextId, σ.entered, yields_onScopes.2 ⟨_, rfl, rfl⟩, yields_bind.2 ⟨a, υ, ha, ?_⟩⟩
  refine yields_bind.2 ⟨(), _, yields_onScopes.2 ⟨_, ?_, rfl⟩, yields_pure.2 ⟨rfl, rfl⟩⟩
  rw [hexit]
  rfl

/-- What is declared in a scope of its own is forgotten behind it. -/
theorem inScope (h : m.Admits Γ.enter p k Δ) : (Compile.inScope m).Admits Γ p k Γ := by
  have hat : ∀ {σ : CompileState}, σ.At Γ → σ.entered.At Γ.enter :=
    fun hσ => ⟨hσ.shows.enter, hσ.room⟩
  constructor
  · intro σ hσ
    have hsucceeds := h.succeeds (hat hσ)
    refine Iff.trans ⟨fun ⟨a, τ, ha⟩ => ?_, fun ⟨a, υ, ha⟩ => ?_⟩ hsucceeds
    · obtain ⟨υ, -, -, hυ, -, -⟩ := yields_inScope ha
      exact ⟨a, υ, hυ⟩
    · obtain ⟨ht, hs⟩ := h.takes (hat hσ) ha
      exact ⟨a, _, exists_exit ht hs ha⟩
  · intro σ a τ hσ ha
    obtain ⟨υ, top, rest, hυ, hstack, rfl⟩ := yields_inScope ha
    obtain ⟨ht, hs⟩ := h.takes (hat hσ) hυ
    obtain rfl := ht.grows.stack hstack
    exact ⟨⟨ht.grows.left, rfl, ht.slots, ht.points⟩, hσ.shows.grown rfl ht.grows.slots⟩

end Admits

end Compile

section Expressions

open Compile

variable {Γ : OpenScopes}

namespace OpenScopes

theorem covers_nil : Γ.Covers [] ↔ True := by simp [Covers]

theorem covers_append {us vs : List Visit} : Γ.Covers (us ++ vs) ↔ Γ.Covers us ∧ Γ.Covers vs := by
  simp [Covers, or_imp, forall_and]

theorem covers_cons {u : Visit} {vs : List Visit} (hu : ∀ v, u ≠ .expr (.var v)) :
    Γ.Covers (u :: vs) ↔ Γ.Covers vs := by
  simp [Covers, (hu _).symm]

theorem covers_of_isGround {e : Expr} (h : e.IsGround) : Γ.Covers e.visits :=
  fun _ hv => (h _ hv trivial).elim

theorem covers_enter {vs : List Visit} : Γ.enter.Covers vs ↔ Γ.Covers vs := by
  have hdeclares : ∀ v, Γ.enter.Declares v ↔ Γ.Declares v := by simp [Declares, enter]
  have hresolves : ∀ v, Γ.enter.Resolves v ↔ Γ.Resolves v := by
    intro v
    cases v <;> simp [Resolves, hdeclares]
  simp [Covers, hresolves]

end OpenScopes

theorem VarRef.exists_compile {v : VarRef} {σ : CompileState} :
    (∃ c τ, v.compile.Yields σ c τ) ↔ (v.slot? σ.scopes).isSome ∨ ∃ name, v = .injected name := by
  have hget : (get : Compile CompileState).Yields σ σ σ := yields_get.2 ⟨rfl, rfl⟩
  constructor
  · rintro ⟨c, τ, h⟩
    obtain ⟨-, ⟨slot, hslot, -⟩ | ⟨-, name, hname, -⟩⟩ := v.compile_yields h
    · exact .inl (by simp [hslot])
    · exact .inr ⟨name, hname⟩
  · intro h
    cases hslot : v.slot? σ.scopes with
    | some slot =>
      refine ⟨.slot slot, σ, yields_bind.2 ⟨σ, σ, hget, ?_⟩⟩
      rw [hslot]
      exact yields_pure.2 ⟨rfl, rfl⟩
    | none =>
      obtain h | ⟨name, rfl⟩ := h
      · simp [hslot] at h
      · refine ⟨.injected name, σ, yields_bind.2 ⟨σ, σ, hget, ?_⟩⟩
        rw [hslot]
        exact yields_pure.2 ⟨rfl, rfl⟩

theorem Scopes.Shows.resolves {s : Scopes} (h : s.Shows Γ) (v : VarRef) :
    (v.slot? s).isSome ∨ (∃ name, v = .injected name) ↔ Γ.Resolves v := by
  cases v with
  | param name =>
    simp [VarRef.slot?, OpenScopes.Resolves, ← h.declares, VarRef.name, VarRef.kind]
  | state name | bound name =>
    simp [VarRef.slot?, OpenScopes.Resolves, ← h.declares, VarRef.name, VarRef.kind]
  | injected name => simp [OpenScopes.Resolves]

theorem VarRef.compile_admits (v : VarRef) : v.compile.Admits Γ (Γ.Resolves v) 0 Γ :=
  .of_isQuiet (.var v) fun hσ => exists_compile.trans (hσ.shows.resolves v)

theorem Compile.newSite_admits : newSite.Admits Γ True 0 Γ :=
  .of_isQuiet .newSite fun _ => iff_true_intro ⟨_, _, rfl⟩

mutual

theorem Expr.compile_admits (e : Expr) : e.compile.Admits Γ (Γ.Covers e.visits) 0 Γ := by
  unfold Expr.compile
  split
  · rename_i v hv
    have hground : e.IsGround := by
      unfold Expr.fold? at hv
      split at hv
      · exact e.isConstant_iff.1 ‹_›
      · cases hv
    exact (Admits.pure _).congr (iff_true_intro (OpenScopes.covers_of_isGround hground)) rfl
  · cases e with
    | literal l =>
      refine (Admits.pure _).congr ?_ rfl
      simp [Expr.visits, OpenScopes.Covers]
    | var v =>
      refine v.compile_admits.congr ?_ rfl
      simp [Expr.visits, OpenScopes.Covers]
    | binary op l r =>
      refine (l.compile_admits.bind fun _ => r.compile_admits.bind fun _ => .pure _).congr ?_ rfl
      rw [Expr.visits, OpenScopes.covers_cons (by simp), OpenScopes.covers_append, and_true]
    | index l r =>
      refine (l.compile_admits.bind fun _ => r.compile_admits.bind fun _ => .pure _).congr ?_ rfl
      rw [Expr.visits, OpenScopes.covers_cons (by simp), OpenScopes.covers_append, and_true]
    | unary op e =>
      refine (e.compile_admits.bind fun _ => .pure _).congr ?_ rfl
      rw [Expr.visits, OpenScopes.covers_cons (by simp), and_true]
    | field e n nullSafe =>
      refine (e.compile_admits.bind fun _ => .pure _).congr ?_ rfl
      rw [Expr.visits, OpenScopes.covers_cons (by simp), and_true]
    | cond c t e =>
      refine (c.compile_admits.bind fun _ => t.compile_admits.bind fun _ =>
        e.compile_admits.bind fun _ => .pure _).congr ?_ rfl
      rw [Expr.visits, OpenScopes.covers_cons (by simp), OpenScopes.covers_append,
        OpenScopes.covers_append, and_true, and_assoc]
    | list es =>
      refine ((Expr.compileAll_admits es).bind fun _ => .pure _).congr ?_ rfl
      rw [Expr.visits, OpenScopes.covers_cons (by simp), and_true]
    | builtin f es =>
      refine ((Expr.compileAll_admits es).bind fun _ => .pure _).congr ?_ rfl
      rw [Expr.visits, OpenScopes.covers_cons (by simp), and_true]
    | record fs =>
      refine ((Expr.compileFields_admits fs).bind fun _ => .pure _).congr ?_ rfl
      rw [Expr.visits, OpenScopes.covers_cons (by simp), and_true]
    | template n =>
      refine (newSite_admits.bind fun _ => .pure _).congr ?_ rfl
      simp [Expr.visits, OpenScopes.Covers]
    | element id n table =>
      cases table with
      | none =>
        refine (Admits.pure _).congr ?_ rfl
        simp [Expr.visits, OpenScopes.Covers]
      | some table =>
        refine (newSite_admits.bind fun _ => .pure _).congr ?_ rfl
        simp [Expr.visits, OpenScopes.Covers]

theorem Expr.compileAll_admits (es : List Expr) :
    (Expr.compileAll es).Admits Γ (Γ.Covers (Expr.visitsAll es)) 0 Γ := by
  cases es with
  | nil =>
    rw [Expr.compileAll, Expr.visitsAll]
    exact (Admits.pure _).congr OpenScopes.covers_nil rfl
  | cons e es =>
    rw [Expr.compileAll, Expr.visitsAll]
    refine (e.compile_admits.bind fun _ => (Expr.compileAll_admits es).bind fun _ =>
      .pure _).congr ?_ rfl
    rw [OpenScopes.covers_append, and_true]

theorem Expr.compileFields_admits (fs : List (String × Expr)) :
    (Expr.compileFields fs).Admits Γ (Γ.Covers (Expr.visitsFields fs)) 0 Γ := by
  match fs with
  | [] =>
    rw [Expr.compileFields, Expr.visitsFields]
    exact (Admits.pure _).congr OpenScopes.covers_nil rfl
  | (k, e) :: fs =>
    rw [Expr.compileFields, Expr.visitsFields]
    refine (e.compile_admits.bind fun _ => (Expr.compileFields_admits fs).bind fun _ =>
      .pure _).congr ?_ rfl
    rw [OpenScopes.covers_append, and_true]

end

theorem Compile.paramsBase_admits (data : CallData) :
    (paramsBase data).Admits Γ (Γ.Covers data.visits) 0 Γ := by
  cases data with
  | none | all => exact (Admits.pure _).congr OpenScopes.covers_nil rfl
  | expr e =>
    refine (e.compile_admits.bind fun _ => .pure _).congr ?_ rfl
    rw [CallData.visits, and_true]

theorem Compile.callee_admits (target : CallTarget) :
    (callee target).Admits Γ (Γ.Covers target.visits) 0 Γ := by
  match target with
  | .template n =>
    refine .of_isQuiet (.callee _) fun {σ} _ => ?_
    exact iff_of_true ⟨_, _, rfl⟩ (OpenScopes.covers_nil.2 trivial)
  | .delegate n none allowEmpty => exact (Admits.pure _).congr OpenScopes.covers_nil rfl
  | .delegate n (some v) allowEmpty =>
    refine (v.compile_admits.bind fun _ => .pure _).congr ?_ rfl
    rw [CallTarget.visits, and_true]

end Expressions

section Statements

open Compile Node

variable {joins : Bool} {Γ : OpenScopes}

theorem Compile.writeText_admits (out : Output) (s : String) :
    (writeText out s).Admits Γ True (.text (s != "")) Γ := by
  unfold writeText
  by_cases hs : s = ""
  · rw [if_pos hs, hs]
    exact .pure _
  · rw [if_neg hs]
    refine (Admits.placePoint.bind fun _ => .pure _).congr (by simp) ?_
    simp only [Need.text, bne_iff_ne, ne_eq, hs, not_false_iff, if_true]
    rfl

theorem Node.declareIndex_admits {var : String} (index : Option String) :
    (declareIndex index).Admits (Γ.enter.declare (.bound var)) (index ≠ some var)
      (if index.isSome then .slot else 0) (Γ.loop var index) := by
  cases index with
  | none => exact (Admits.pure _).congr (by simp) rfl
  | some name =>
    refine ((Admits.declare (.bound name) .int).map some).congr ?_ rfl
    simp [OpenScopes.Lacks, OpenScopes.declare, OpenScopes.enter, VarRef.name, eq_comm]

theorem Node.compileLoop_admits {out : Output} {var : String} {index : Option String} {items : Code}
    {b : List Node} (h : (compileBlock joins out "" b).Admits (Γ.loop var index).enter
      (BlockScoped (Γ.loop var index).enter b) (blockNeed joins false b)
      (leavesAll (Γ.loop var index).enter b)) :
    (compileLoop joins out var index items b).Admits Γ
      (index ≠ some var ∧ BlockScoped (Γ.loop var index).enter b)
      (.slot + .slot + .slot + .point + (if index.isSome then .slot else 0) + blockNeed joins false b)
      Γ := by
  refine .congr (.inScope ((Admits.temporary _).bind fun list => (Admits.temporary _).bind fun cursor =>
    Admits.placePoint.bind fun point => (Admits.declare (.bound var) .unknown).bind fun item =>
    (declareIndex_admits index).bind fun position => Admits.here.bind fun head =>
    Admits.place.bind fun _ => (Admits.inScope h).bind fun body => Admits.place.bind fun _ =>
    Admits.here.bind fun exit => .pure _)) ?_ ?_
  · simp [OpenScopes.Lacks, OpenScopes.enter]
  · abel

theorem append_bne_empty (s t : String) : (s ++ t != "") = (s != "" || t != "") := by
  rw [Bool.eq_iff_iff]
  simp only [bne_iff_ne, Bool.or_eq_true, ne_eq, String.append_eq_empty_iff, not_and_or]

namespace Node

variable {out : Output}

theorem blockNeed_cons {n : Node} (h : joins = true → ∀ s, n ≠ text s) (isPending : Bool)
    (ns : List Node) : blockNeed joins isPending (n :: ns) =
      .text isPending + n.need joins + blockNeed joins false ns := by
  cases joins with
  | false => rfl
  | true =>
    cases n with
    | text s => exact absurd rfl (h rfl s)
    | _ => rfl

theorem childrenScoped_cons {n : Node} (h : ∀ e, n ≠ key e) (ns : List Node) :
    ChildrenScoped Γ (n :: ns) ↔ n.Scoped Γ ∧ ChildrenScoped (n.leaves Γ) ns := by
  cases n with
  | key e => exact absurd rfl (h e)
  | _ => exact Iff.rfl

theorem text_open (name : String) : Need.text ("<" ++ name != "") = .point := by
  rw [append_bne_empty]
  rfl

theorem text_close (selfClosing : Bool) :
    Need.text ((if selfClosing then "/>" else ">") != "") = .point := by
  cases selfClosing <;> rfl

theorem casesScoped_enter {cs : List (List Expr × List Node)} :
    CasesScoped Γ.enter cs ↔ CasesScoped Γ cs := by
  induction cs with
  | nil => exact Iff.rfl
  | cons c cs ih =>
    simp only [CasesScoped, OpenScopes.covers_enter, ih]
    exact Iff.rfl

theorem argsScoped_enter {as : List Arg} : ArgsScoped Γ.enter as ↔ ArgsScoped Γ as := by
  induction as with
  | nil => exact Iff.rfl
  | cons a as ih =>
    cases a with
    | value name e => simp only [ArgsScoped, OpenScopes.covers_enter, ih]
    | content name kind b =>
      simp only [ArgsScoped, ih]
      exact Iff.rfl

theorem inBlock_admits {b : List Node}
    (h : (compileBlock joins out "" b).Admits Γ.enter (BlockScoped Γ.enter b)
      (blockNeed joins false b) (leavesAll Γ.enter b)) :
    (inScope (compileBlock joins out "" b)).Admits Γ (BlockScoped Γ.enter b)
      (blockNeed joins false b) Γ := .inScope h

mutual

/-- A statement is compiled exactly if it keeps to the scope rules and there is room for it. -/
theorem compile_admits : (n : Node) → (out : Output) → (Γ : OpenScopes) →
    (n.compile joins out).Admits Γ (n.Scoped Γ) (n.need joins) (n.leaves Γ)
  | .text s, out, Γ => by
    rw [compile_text]
    exact (writeText_admits out s).congr (by rw [Scoped]) (by rw [need])
  | .print e, out, Γ => by
    rw [compile_print]
    refine (e.compile_admits.bind fun _ => Admits.placePoint.bind fun _ => .pure _).congr ?_ rfl
    simp [Scoped]
  | .branch bs none, out, Γ => by
    rw [compile_branch]
    exact (branches_admits bs out Γ (.pure _)).congr (by simp [Scoped]) rfl
  | .branch bs (some b), out, Γ => by
    rw [compile_branch]
    exact (branches_admits bs out Γ (inBlock_admits (block_admits b out "" _))).congr
      (by simp [Scoped]) rfl
  | .switch e cs none, out, Γ => by
    rw [compile_switch]
    refine (Admits.inScope (e.compile_admits.bind fun _ => (Admits.temporary _).bind fun subject =>
      Admits.placePoint.bind fun _ => (cases_admits cs out Γ.enter subject (.pure _)).bind fun _ =>
      .pure _)).congr ?_ ?_
    · simp only [Scoped, OpenScopes.covers_enter, casesScoped_enter, and_true, true_and]
    · rw [need]
      abel
  | .switch e cs (some b), out, Γ => by
    rw [compile_switch]
    refine (Admits.inScope (e.compile_admits.bind fun _ => (Admits.temporary _).bind fun subject =>
      Admits.placePoint.bind fun _ => (cases_admits cs out Γ.enter subject
        (inBlock_admits (block_admits b out "" _))).bind fun _ => .pure _)).congr ?_ ?_
    · simp only [Scoped, OpenScopes.covers_enter, casesScoped_enter, and_true, true_and]
      exact Iff.rfl
    · rw [need]
      abel
  | .each var index items b none, out, Γ => by
    rw [compile_each]
    refine (items.compile_admits.bind fun c =>
      (compileLoop_admits (block_admits b out "" _)).bind fun loop => .pure _).congr ?_ ?_
    · simp [Scoped]
    · rw [need]
      abel
  | .each var index items b (some d), out, Γ => by
    rw [compile_each]
    refine (items.compile_admits.bind fun c =>
      (compileLoop_admits (block_admits b out "" _)).bind fun loop => Admits.place.bind fun _ =>
      Admits.here.bind fun _ => (inBlock_admits (block_admits d out "" _)).bind fun _ =>
      Admits.here.bind fun _ => .pure _).congr ?_ ?_
    · simp [Scoped, and_assoc]
    · rw [need]
      abel
  | .bind name e, out, Γ => by
    rw [compile_bind]
    refine (e.compile_admits.bind fun _ => (Admits.declare (.bound name) .unknown).bind fun _ =>
      Admits.placePoint.bind fun _ => .pure _).congr ?_ ?_
    · simp [Scoped, VarRef.name]
    · rw [need]
      abel
  | .capture name kind b, out, Γ => by
    rw [compile_capture]
    refine ((Admits.temporary _).bind fun buffer => Admits.place.bind fun _ =>
      (inBlock_admits (block_admits b (.buffer buffer) "" _)).bind fun _ =>
      (Admits.declare (.bound name) (.content kind)).bind fun _ => Admits.place.bind fun _ =>
      .pure _).congr ?_ ?_
    · simp [Scoped, VarRef.name]
    · rw [need]
      abel
  | .call target data as, out, Γ => by
    rw [compile_call]
    refine (Admits.inScope ((args_admits as Γ.enter).bind fun sources =>
      (paramsBase_admits data).bind fun _ => (callee_admits target).bind fun _ =>
      Admits.placePoint.bind fun _ => .pure _)).congr ?_ ?_
    · simp [Scoped, OpenScopes.covers_enter, argsScoped_enter]
    · rw [need]
      abel
  | .tag name children selfClosing, out, Γ => by
    rw [compile_tag]
    refine ((writeText_admits out _).bind fun _ => (children_admits children out Γ).bind fun _ =>
      (writeText_admits out _).bind fun _ => .pure _).congr ?_ ?_
    · simp [Scoped]
    · rw [need, text_open, text_close]
      abel
  | .key e, out, Γ => by
    rw [compile_key]
    exact (Admits.contradiction .strayKey).congr (by rw [Scoped]) rfl

theorem block_admits : (ns : List Node) → (out : Output) → (pending : String) → (Γ : OpenScopes) →
    (compileBlock joins out pending ns).Admits Γ (BlockScoped Γ ns)
      (blockNeed joins (pending != "") ns) (leavesAll Γ ns)
  | [], out, pending, Γ => writeText_admits out pending
  | n :: ns, out, pending, Γ => by
    by_cases hjoin : joins = true ∧ ∃ s, n = .text s
    · obtain ⟨hj, s, rfl⟩ := hjoin
      have hns := block_admits ns out (pending ++ s) Γ
      rw [hj, append_bne_empty] at hns
      rw [hj, compileBlock_join]
      exact hns.congr (by simp [BlockScoped, Scoped, leaves]) (by rw [blockNeed])
    · have hn : joins = true → ∀ s, n ≠ .text s := fun hj s hn => hjoin ⟨hj, s, hn⟩
      rw [compileBlock_cons out hn]
      refine ((writeText_admits out pending).bind fun _ => (compile_admits n out Γ).bind fun _ =>
        (block_admits ns out "" (n.leaves Γ)).bind fun _ => .pure _).congr ?_ ?_
      · simp [BlockScoped]
      · rw [blockNeed_cons hn]
        abel

theorem branches_admits : (bs : List (Expr × List Node)) → (out : Output) → (Γ : OpenScopes) →
    {otherwise : Compile (List Op)} → {p : Prop} → {k : Need} → otherwise.Admits Γ p k Γ →
    (compileBranches joins out bs otherwise).Admits Γ (BranchesScoped Γ bs ∧ p)
      (branchesNeed joins bs + k) Γ
  | [], out, Γ, _, p, k, ho => by
    exact ho.congr (by simp [BranchesScoped]) (by rw [branchesNeed, zero_add])
  | (e, b) :: bs, out, Γ, _, p, k, ho => by
    rw [compileBranches_cons]
    refine (e.compile_admits.bind fun _ => Admits.placePoint.bind fun _ =>
      (inBlock_admits (block_admits b out "" _)).bind fun _ => Admits.place.bind fun _ =>
      Admits.here.bind fun _ => (branches_admits bs out Γ ho).bind fun _ =>
      Admits.here.bind fun _ => .pure _).congr ?_ ?_
    · simp [BranchesScoped, and_assoc]
    · rw [branchesNeed]
      abel

theorem cases_admits : (cs : List (List Expr × List Node)) → (out : Output) → (Γ : OpenScopes) →
    (subject : Nat) → {otherwise : Compile (List Op)} → {p : Prop} → {k : Need} →
    otherwise.Admits Γ p k Γ → (compileCases joins out subject cs otherwise).Admits Γ
      (CasesScoped Γ cs ∧ p) (casesNeed joins cs + k) Γ
  | [], out, Γ, subject, _, p, k, ho => by
    exact ho.congr (by simp [CasesScoped]) (by rw [casesNeed, zero_add])
  | (es, b) :: cs, out, Γ, subject, _, p, k, ho => by
    rw [compileCases_cons]
    refine ((Expr.compileAll_admits es).bind fun _ => Admits.placePoint.bind fun _ =>
      (inBlock_admits (block_admits b out "" _)).bind fun _ => Admits.place.bind fun _ =>
      Admits.here.bind fun _ => (cases_admits cs out Γ subject ho).bind fun _ =>
      Admits.here.bind fun _ => .pure _).congr ?_ ?_
    · simp [CasesScoped, and_assoc]
    · rw [casesNeed]
      abel

theorem args_admits : (as : List Arg) → (Γ : OpenScopes) →
    (compileArgs joins as).Admits Γ (ArgsScoped Γ as) (argsNeed joins as) Γ
  | [], Γ => .pure _
  | .value name e :: as, Γ => by
    rw [compileArgs_value]
    refine (e.compile_admits.bind fun _ => (args_admits as Γ).bind fun _ => .pure _).congr ?_ ?_
    · simp [ArgsScoped]
    · rw [argsNeed]
      abel
  | .content name kind b :: as, Γ => by
    rw [compileArgs_content]
    refine ((Admits.temporary _).bind fun buffer => Admits.place.bind fun _ =>
      (inBlock_admits (block_admits b (.buffer buffer) "" _)).bind fun _ => Admits.place.bind fun _ =>
      (args_admits as Γ).bind fun _ => .pure _).congr ?_ ?_
    · simp [ArgsScoped]
    · rw [argsNeed]
      abel

theorem children_admits : (ns : List Node) → (out : Output) → (Γ : OpenScopes) →
    (compileChildren joins out ns).Admits Γ (ChildrenScoped Γ ns) (childrenNeed joins ns)
      (leavesAll Γ ns)
  | [], out, Γ => .pure _
  | n :: ns, out, Γ => by
    by_cases hkey : ∃ e, n = .key e
    · obtain ⟨e, rfl⟩ := hkey
      rw [compileChildren_key]
      refine (e.compile_admits.bind fun _ => children_admits ns out Γ).congr ?_ ?_
      · simp [ChildrenScoped]
      · rw [childrenNeed, need]
    · have hn : ∀ e, n ≠ .key e := fun e he => hkey ⟨e, he⟩
      rw [compileChildren_cons joins out hn]
      refine ((compile_admits n out Γ).bind fun _ => (children_admits ns out (n.leaves Γ)).bind fun _ =>
        .pure _).congr ?_ ?_
      · rw [childrenScoped_cons hn, and_true]
      · rw [childrenNeed]
        abel

end

end Node

end Statements

section Headers

open Compile

variable {Γ : OpenScopes}

theorem Compile.constant_admits (owner : String) (e : Expr) :
    (constant owner e).Admits Γ e.IsKnown 0 Γ := by
  have hquiet : (constant owner e).IsQuiet := fun σ v τ h => (constant_yields h).2 ▸ .refl σ
  refine .of_isQuiet hquiet fun {σ} _ => ?_
  rw [Expr.isKnown_iff]
  constructor
  · rintro ⟨v, τ, h⟩
    exact ⟨v, (constant_yields h).1⟩
  · rintro ⟨v, hv⟩
    refine ⟨v, σ, yields_bind.2 ⟨σ, σ, yields_get.2 ⟨rfl, rfl⟩, ?_⟩⟩
    rw [Expr.constant_eq_ok_iff.2 hv]
    exact yields_pure.2 ⟨rfl, rfl⟩

theorem Compile.param_admits (p : Param) : (param p).Admits Γ
    ((∀ e, p.default = some e → e.IsKnown) ∧ Γ.Lacks p.name) .slot (Γ.declare p.ref) := by
  have hslot := Admits.declare (Γ := Γ) p.ref p.type
  rw [p.ref_name, p.ref_kind, Param.slotKind] at hslot
  unfold param
  cases p.default with
  | none =>
    refine ((Admits.pure _).bind fun _ => hslot.bind fun _ => .pure _).congr ?_ ?_
    · simp
    · abel
  | some e =>
    refine (((constant_admits p.name e).map some).bind fun _ => hslot.bind fun _ => .pure _).congr ?_ ?_
    · simp
    · abel

theorem Compile.stateVar_admits (v : StateVar) : (stateVar v).Admits Γ
    (v.initial.IsKnown ∧ Γ.Lacks v.name) .slot (Γ.declare (.state v.name)) := by
  refine ((constant_admits v.name v.initial).bind fun _ =>
    (Admits.declare (.state v.name) v.type).bind fun _ => .pure _).congr ?_ ?_
  · simp [VarRef.name]
  · abel

namespace OpenScopes

def Introduces (Γ : OpenScopes) (vs : List VarRef) : Prop :=
  (vs.map (·.name)).Nodup ∧ ∀ v ∈ vs, Γ.Lacks v.name

theorem introduces_cons {v : VarRef} {vs : List VarRef} :
    Γ.Introduces (v :: vs) ↔ Γ.Lacks v.name ∧ (Γ.declare v).Introduces vs := by
  have hfresh : (v.name ∉ vs.map (·.name)) ↔ ∀ u ∈ vs, v.name ≠ u.name := by
    simp [eq_comm]
  simp only [Introduces, List.map_cons, List.nodup_cons, List.forall_mem_cons, Lacks, declare, hfresh]
  grind

theorem introduces_append {us vs : List VarRef} :
    Γ.Introduces (us ++ vs) ↔ Γ.Introduces us ∧ (Γ.declareAll us).Introduces vs := by
  induction us generalizing Γ with
  | nil => simp [Introduces, declareAll]
  | cons u us ih => rw [List.cons_append, introduces_cons, introduces_cons, ih, and_assoc]; rfl

end OpenScopes

theorem Compile.params_admits (ps : List Param) : (params ps).Admits Γ
    ((∀ p ∈ ps, ∀ e, p.default = some e → e.IsKnown) ∧ Γ.Introduces (ps.map (·.ref)))
    ⟨ps.length, 0⟩ (Γ.declareAll (ps.map (·.ref))) := by
  induction ps generalizing Γ with
  | nil => exact (Admits.pure _).congr (by simp [OpenScopes.Introduces]) rfl
  | cons p ps ih =>
    refine ((param_admits p).bind fun _ => ih.bind fun _ => .pure _).congr ?_ ?_
    · rw [List.map_cons, OpenScopes.introduces_cons, p.ref_name, List.forall_mem_cons, and_true]
      exact and_and_and_comm
    · ext <;> simp [Nat.add_comm]

theorem Compile.stateVars_admits (vs : List StateVar) : (stateVars vs).Admits Γ
    ((∀ v ∈ vs, v.initial.IsKnown) ∧ Γ.Introduces (vs.map (.state ·.name)))
    ⟨vs.length, 0⟩ (Γ.declareAll (vs.map (.state ·.name))) := by
  induction vs generalizing Γ with
  | nil => exact (Admits.pure _).congr (by simp [OpenScopes.Introduces]) rfl
  | cons v vs ih =>
    refine ((stateVar_admits v).bind fun _ => ih.bind fun _ => .pure _).congr ?_ ?_
    · rw [List.map_cons, OpenScopes.introduces_cons, List.forall_mem_cons, and_true]
      exact and_and_and_comm
    · ext <;> simp [Nat.add_comm]

end Headers

section Templates

open Compile

variable {joins : Bool} {t : Template}

def Compile.parts (joins : Bool) (t : Template) :
    Compile (List ParamBinding × List StateBinding × List Op) := do
  let ps ← params t.params
  let vs ← stateVars t.state
  let ops ← Node.compileBlock joins .sink "" t.body
  return (ps, vs, ops)

theorem Compile.procedure_eq : procedure joins t =
    onScopes (fun s => .ok s.enter) >>= fun header => parts joins t >>= fun r =>
      finish header >>= fun _ => get >>= fun s =>
        pure ⟨r.2.2.toArray, s.points, s.scopes.slots, r.1, r.2.1⟩ := by
  simp only [procedure, parts, bind_assoc, pure_bind]

theorem Template.wellScoped_iff : t.WellScoped ↔
    ((∀ p ∈ t.params, ∀ e, p.default = some e → e.IsKnown) ∧
      OpenScopes.Introduces ⟨[], []⟩ (t.params.map (·.ref))) ∧
    ((∀ v ∈ t.state, v.initial.IsKnown) ∧ (OpenScopes.declareAll ⟨[], []⟩
      (t.params.map (·.ref))).Introduces (t.state.map (.state ·.name))) ∧
    Node.BlockScoped (OpenScopes.declareAll ⟨[], []⟩ t.header) t.body := by
  have hheader : (t.header.map (·.name)).Nodup ↔ OpenScopes.Introduces ⟨[], []⟩ t.header := by
    simp [OpenScopes.Introduces, OpenScopes.Lacks]
  rw [Template.header, OpenScopes.introduces_append] at hheader
  constructor
  · intro h
    obtain ⟨hparams, hstate⟩ := hheader.1 h.header
    exact ⟨⟨h.defaults, hparams⟩, ⟨h.state, hstate⟩, h.body⟩
  · rintro ⟨⟨hdefaults, hparams⟩, ⟨hinitial, hstate⟩, hbody⟩
    exact ⟨hdefaults, hinitial, hheader.2 ⟨hparams, hstate⟩, hbody⟩

theorem Compile.parts_admits : (parts joins t).Admits ⟨[], []⟩ t.WellScoped (t.need joins)
    (Node.leavesAll (OpenScopes.declareAll ⟨[], []⟩ t.header) t.body) := by
  have hheader : OpenScopes.declareAll ⟨[], []⟩ t.header = (OpenScopes.declareAll ⟨[], []⟩
      (t.params.map (·.ref))).declareAll (t.state.map (.state ·.name)) := List.foldl_append
  rw [hheader]
  refine ((params_admits t.params).bind fun _ => (stateVars_admits t.state).bind fun _ =>
    (Node.block_admits t.body .sink "" _).bind fun _ => .pure _).congr ?_ ?_
  · rw [Template.wellScoped_iff, hheader, and_true]
  · simp [Need.ext_iff, Template.need]
    omega

theorem Template.start_at (t : Template) : t.start.At ⟨[], []⟩ where
  shows := by
    refine ⟨fun sc hsc b hb => ?_, fun v => ?_, _, _, rfl, fun name => ?_⟩
    · obtain rfl := List.mem_singleton.1 hsc
      cases hb
    · have hnone : t.start.scopes.lookupKind? v.name v.kind = none := rfl
      simp [hnone, OpenScopes.Declares]
    · simp [OpenScopes.Lacks]
  room := ⟨Nat.zero_le _, Nat.zero_le _⟩

theorem Compile.exists_finish {k : Need} {σ : CompileState} {Δ : OpenScopes}
    (h : t.start.Takes k σ) (hs : σ.scopes.Shows Δ) : (finish 0).Yields σ () (σ.left []) := by
  obtain ⟨top, rest, hstack, -⟩ := hs.inner
  have hid : top.id = 0 := by
    have := h.scope
    rw [hstack] at this
    exact Option.some.inj this
  obtain rfl : rest = [] := by
    have := h.grows.outer
    rwa [hstack] at this
  have hexit : σ.scopes.exit 0 = .ok { σ.scopes with stack := [] } := by
    rw [Scopes.exit, hstack]
    exact if_pos hid
  refine yields_bind.2 ⟨(), σ.left [], yields_onScopes.2 ⟨_, ?_, rfl⟩, ?_⟩
  · rw [hexit]
    rfl
  · exact yields_bind.2 ⟨_, _, yields_get.2 ⟨rfl, rfl⟩, yields_pure.2 ⟨rfl, rfl⟩⟩

theorem Compile.exists_procedure : (∃ p τ, (procedure joins t).Yields (.of (.empty t.name)) p τ) ↔
    ∃ r σ, (parts joins t).Yields t.start r σ := by
  rw [procedure_eq]
  constructor
  · rintro ⟨p, τ, h⟩
    obtain ⟨header, _, henter, h⟩ := yields_bind.1 h
    obtain ⟨r, σ, hr, -⟩ := yields_bind.1 h
    obtain ⟨_, hs, rfl⟩ := yields_onScopes.1 henter
    cases hs
    exact ⟨r, σ, hr⟩
  · rintro ⟨r, σ, hr⟩
    obtain ⟨htakes, hshows⟩ := parts_admits.takes t.start_at hr
    refine ⟨⟨r.2.2.toArray, σ.points, σ.scopes.slots, r.1, r.2.1⟩, σ.left [], yields_bind.2
      ⟨0, t.start, yields_onScopes.2 ⟨_, rfl, rfl⟩, yields_bind.2 ⟨r, σ, hr, ?_⟩⟩⟩
    refine yields_bind.2 ⟨(), _, exists_finish htakes hshows, ?_⟩
    exact yields_bind.2 ⟨_, _, yields_get.2 ⟨rfl, rfl⟩, yields_pure.2 ⟨rfl, rfl⟩⟩

theorem Template.exists_compile : (∃ c, t.compile joins = .ok c) ↔
    ∃ p τ, (procedure joins t).Yields (.of (.empty t.name)) p τ := by
  simp only [Template.compile_eq]
  unfold Yields
  rcases h : (procedure joins t).run (.of (.empty t.name)) with ⟨e | p, τ⟩
  · refine iff_of_false (fun ⟨_, hc⟩ => by cases hc) fun ⟨p, σ, hp⟩ => ?_
    cases h.symm.trans hp
  · exact iff_of_true ⟨_, rfl⟩ ⟨p, τ, h⟩

/-- A template compiles exactly if it keeps to the scope rules and does not need more slots or resume points
than there can be. -/
theorem Template.compiles_iff (joins : Bool) (t : Template) : (∃ c, t.compile joins = .ok c) ↔
    t.WellScoped ∧ (t.need joins).slots ≤ Scopes.limit ∧ (t.need joins).points ≤ Scopes.limit := by
  rw [exists_compile, exists_procedure, parts_admits.succeeds t.start_at]
  have hfits : (t.need joins).Fits t.start ↔
      (t.need joins).slots ≤ Scopes.limit ∧ (t.need joins).points ≤ Scopes.limit := by
    simp [Need.Fits, Template.start, CompileState.entered, CompileState.of, Scopes.enter, Scopes.empty]
  rw [hfits]

end Templates

end ResumableTemplates
