import Mathlib
import ResumableTemplates.Proofs.Render.Ensured
import ResumableTemplates.Proofs.Value.Closed

/-! Loose equality as a congruence. Values that are loosely equal are loosely equal to the same values, but
for what is lost where an integer is compared with a float: there, different integers can equal one float.
Main statement: an item of a list, at any depth of lists and records, can be replaced by a loosely equal
one, and no comparison and no `switch` notices. -/
namespace ResumableTemplates

namespace Value

theorem looseEqAll_iff {vs ws : List Value} :
    looseEqAll vs ws = true ↔ List.Forall₂ (fun v w => v.looseEq w = true) vs ws := by
  induction vs generalizing ws with
  | nil => cases ws <;> simp [looseEqAll]
  | cons v vs ih => cases ws <;> simp [looseEqAll, ih]

theorem strictEqFields_cons (f g : String × Value) (fs gs : List (String × Value)) :
    strictEqFields (f :: fs) (g :: gs) =
      (f.1 == g.1 && f.2.strictEq g.2 && strictEqFields fs gs) := by
  rw [strictEqFields]

theorem strictEqFields_iff {fs gs : List (String × Value)} : strictEqFields fs gs = true ↔
    List.Forall₂ (fun f g => f.1 = g.1 ∧ f.2.strictEq g.2 = true) fs gs := by
  induction fs generalizing gs with
  | nil => cases gs <;> simp [strictEqFields]
  | cons f fs ih =>
    cases gs with
    | nil => simp [strictEqFields]
    | cons g gs => simp [strictEqFields_cons, ih]

mutual

theorem looseEq_comm : (v w : Value) → v.looseEq w = w.looseEq v
  | list vs, w => by
    cases w with
    | list ws => rw [looseEq, looseEq, looseEqAll_comm vs ws]
    | _ => simp only [looseEq]
  | record fs, w => by
    cases w with
    | record gs => rw [looseEq, looseEq, strictEqFields_comm fs gs]
    | _ => simp only [looseEq]
  | null, w | bool _, w | int _, w | float _, w | str _, w | content .., w | template .., w
  | element _, w | lazy .., w => by
    cases w <;> simp only [looseEq, BEq.comm]

theorem strictEq_comm : (v w : Value) → v.strictEq w = w.strictEq v
  | list vs, w => by
    cases w with
    | list ws => rw [strictEq, strictEq, looseEqAll_comm vs ws]
    | _ => simp only [strictEq]
  | record fs, w => by
    cases w with
    | record gs => rw [strictEq, strictEq, strictEqFields_comm fs gs]
    | _ => simp only [strictEq]
  | null, w | bool _, w | int _, w | float _, w | str _, w | content .., w | template .., w
  | element _, w | lazy .., w => by
    cases w <;> simp only [strictEq, BEq.comm]

theorem looseEqAll_comm : (vs ws : List Value) → looseEqAll vs ws = looseEqAll ws vs
  | [], ws => by cases ws <;> simp only [looseEqAll]
  | v :: vs, ws => by
    cases ws with
    | nil => simp only [looseEqAll]
    | cons w ws => rw [looseEqAll, looseEqAll, looseEq_comm v w, looseEqAll_comm vs ws]

theorem strictEqFields_comm :
    (fs gs : List (String × Value)) → strictEqFields fs gs = strictEqFields gs fs
  | [], gs => by cases gs <;> simp only [strictEqFields]
  | (k, v) :: fs, gs => by
    cases gs with
    | nil => simp only [strictEqFields]
    | cons g gs =>
      rw [strictEqFields, strictEqFields, strictEq_comm v g.2, strictEqFields_comm fs gs,
        BEq.comm (a := k)]

end

mutual

def converted : Value → Value → List Int64
  | int n, float _ => [n]
  | float _, int n => [n]
  | list vs, list ws => convertedAll vs ws
  | record fs, record gs => convertedFields fs gs
  | _, _ => []

def convertedAll : List Value → List Value → List Int64
  | v :: vs, w :: ws => v.converted w ++ convertedAll vs ws
  | _, _ => []

def convertedFields : List (String × Value) → List (String × Value) → List Int64
  | (_, v) :: fs, (_, w) :: gs => v.converted w ++ convertedFields fs gs
  | _, _ => []

end

mutual

def ints : Value → List Int64
  | int n => [n]
  | list vs => intsAmong vs
  | record fs => intsOfFields fs
  | _ => []

def intsAmong : List Value → List Int64
  | [] => []
  | v :: vs => v.ints ++ intsAmong vs

def intsOfFields : List (String × Value) → List Int64
  | [] => []
  | (_, v) :: fs => v.ints ++ intsOfFields fs

end

/-- Holds if no integer of the first list and a different one of the second are the same float. -/
def Apart (ns ms : List Int64) : Prop := ∀ n ∈ ns, ∀ m ∈ ms, (floatOf n == floatOf m) = true → n = m

theorem Apart.append {ns ns' ms ms' : List Int64} (h : Apart (ns ++ ns') (ms ++ ms')) :
    Apart ns ms ∧ Apart ns' ms' :=
  ⟨fun n hn m hm => h n (List.mem_append_left _ hn) m (List.mem_append_left _ hm),
    fun n hn m hm => h n (List.mem_append_right _ hn) m (List.mem_append_right _ hm)⟩

theorem looseEq_int_float {n : Int64} {x : Float} (h : (floatOf n == x) = true) {u : Value}
    (hu : Apart [n] u.ints) : (int n).looseEq u = (float x).looseEq u := by
  cases u with
  | int m =>
    rw [looseEq, looseEq, ← BEq.congr_left h]
    refine Bool.eq_iff_iff.2 ⟨fun hnm => ?_, fun hnm => ?_⟩
    · rw [beq_iff_eq] at hnm
      subst hnm
      exact BEq.trans h (BEq.symm h)
    · exact beq_iff_eq.2 (hu n (by simp) m (by simp [ints]) hnm)
  | float y => rw [looseEq, looseEq, BEq.congr_left h]
  | _ => simp only [looseEq]

theorem looseEq_congr_of_isAtom {v w : Value} (hv : v.isAtom = true) (h : v.looseEq w = true)
    {u : Value} (hu : Apart (v.converted w) u.ints) : v.looseEq u = w.looseEq u := by
  cases v with
  | int n =>
    cases w with
    | int m =>
      rw [looseEq, beq_iff_eq] at h
      rw [h]
    | float x =>
      rw [looseEq] at h
      exact looseEq_int_float h hu
    | _ => simp only [looseEq, Bool.false_eq_true] at h
  | float x =>
    cases w with
    | int m =>
      rw [looseEq, BEq.comm] at h
      exact (looseEq_int_float h hu).symm
    | float y =>
      rw [looseEq] at h
      cases u <;> simp only [looseEq, BEq.congr_left h]
    | _ => simp only [looseEq, Bool.false_eq_true] at h
  | list _ | record _ | lazy _ _ => cases hv
  | _ =>
    cases w <;> simp only [looseEq, Bool.false_eq_true, beq_iff_eq] at h <;>
      cases u <;> simp only [looseEq, h]

theorem strictEq_congr_of_isAtom {v w : Value} (hv : v.isAtom = true) (h : v.strictEq w = true)
    (u : Value) : v.strictEq u = w.strictEq u := by
  cases v with
  | float x =>
    cases w with
    | float y =>
      rw [strictEq] at h
      cases u <;> simp only [strictEq, BEq.congr_left h]
    | _ => simp only [strictEq, Bool.false_eq_true] at h
  | list _ | record _ | lazy _ _ => cases hv
  | _ =>
    cases w <;> simp only [strictEq, Bool.false_eq_true, Bool.and_eq_true, beq_iff_eq] at h
    cases u <;> simp only [strictEq, h]

mutual

/-- Values that are loosely equal are loosely equal to the same values, but for integers that only floats
take for equal. -/
theorem looseEq_congr : {v w : Value} → v.looseEq w = true → {u : Value} →
    Apart (v.converted w) u.ints → v.looseEq u = w.looseEq u
  | list vs, w, h, u, hu => by
    cases w with
    | list ws =>
      cases u with
      | list us =>
        rw [looseEq] at h ⊢
        rw [looseEq, looseEqAll_congr h hu]
      | _ => simp only [looseEq]
    | _ => simp only [looseEq, Bool.false_eq_true] at h
  | record fs, w, h, u, hu => by
    cases w with
    | record gs =>
      cases u with
      | record hs =>
        rw [looseEq] at h ⊢
        rw [looseEq, strictEqFields_congr h hu]
      | _ => simp only [looseEq]
    | _ => simp only [looseEq, Bool.false_eq_true] at h
  | lazy .., w, h, _, _ => by cases w <;> simp only [looseEq, Bool.false_eq_true] at h
  | null, _, h, _, hu | bool _, _, h, _, hu | int _, _, h, _, hu | float _, _, h, _, hu
  | str _, _, h, _, hu | content .., _, h, _, hu | template .., _, h, _, hu
  | element _, _, h, _, hu => looseEq_congr_of_isAtom rfl h hu

theorem strictEq_congr : {v w : Value} → v.strictEq w = true → {u : Value} →
    Apart (v.converted w) u.ints → v.strictEq u = w.strictEq u
  | list vs, w, h, u, hu => by
    cases w with
    | list ws =>
      cases u with
      | list us =>
        rw [strictEq] at h ⊢
        rw [strictEq, looseEqAll_congr h hu]
      | _ => simp only [strictEq]
    | _ => simp only [strictEq, Bool.false_eq_true] at h
  | record fs, w, h, u, hu => by
    cases w with
    | record gs =>
      cases u with
      | record hs =>
        rw [strictEq] at h ⊢
        rw [strictEq, strictEqFields_congr h hu]
      | _ => simp only [strictEq]
    | _ => simp only [strictEq, Bool.false_eq_true] at h
  | lazy i a, w, h, u, _ => by
    cases w with
    | lazy j b =>
      rw [strictEq, beq_iff_eq] at h
      cases u <;> simp only [strictEq, h]
    | _ => simp only [strictEq, Bool.false_eq_true] at h
  | null, _, h, u, _ | bool _, _, h, u, _ | int _, _, h, u, _ | float _, _, h, u, _
  | str _, _, h, u, _ | content .., _, h, u, _ | template .., _, h, u, _
  | element _, _, h, u, _ => strictEq_congr_of_isAtom rfl h u

theorem looseEqAll_congr : {vs ws : List Value} → looseEqAll vs ws = true → {us : List Value} →
    Apart (convertedAll vs ws) (intsAmong us) → looseEqAll vs us = looseEqAll ws us
  | [], ws, h, _, _ => by
    cases ws with
    | nil => rfl
    | cons w ws => simp only [looseEqAll, Bool.false_eq_true] at h
  | v :: vs, ws, h, us, hu => by
    cases ws with
    | nil => simp only [looseEqAll, Bool.false_eq_true] at h
    | cons w ws =>
      rw [looseEqAll, Bool.and_eq_true] at h
      cases us with
      | nil => simp only [looseEqAll]
      | cons u us =>
        rw [looseEqAll, looseEqAll, looseEq_congr h.1 hu.append.1,
          looseEqAll_congr h.2 hu.append.2]

theorem strictEqFields_congr : {fs gs : List (String × Value)} → strictEqFields fs gs = true →
    {hs : List (String × Value)} → Apart (convertedFields fs gs) (intsOfFields hs) →
    strictEqFields fs hs = strictEqFields gs hs
  | [], gs, h, _, _ => by
    cases gs with
    | nil => rfl
    | cons g gs => simp only [strictEqFields, Bool.false_eq_true] at h
  | (k, v) :: fs, gs, h, hs, hu => by
    cases gs with
    | nil => simp only [strictEqFields, Bool.false_eq_true] at h
    | cons g gs =>
      rw [strictEqFields, Bool.and_eq_true, Bool.and_eq_true, beq_iff_eq] at h
      obtain ⟨⟨hk, hvw⟩, hfs⟩ := h
      cases hs with
      | nil => simp only [strictEqFields]
      | cons f hs =>
        rw [strictEqFields, strictEqFields, hk, strictEq_congr hvw hu.append.1,
          strictEqFields_congr hfs hu.append.2]

end

/-- Strict equality is the narrower one, but that it knows providers. -/
theorem looseEq_of_strictEq {v w : Value} (h : v.strictEq w = true) :
    v.looseEq w = true ∨ ∃ i a b, v = lazy i a ∧ w = lazy i b := by
  cases v <;> cases w <;>
    simp only [strictEq, Bool.false_eq_true, Bool.and_eq_true, beq_iff_eq] at h <;>
    simp [looseEq, h]

/-- Holds of two values that agree but in one item of a list at some depth, which is `v` in the one and `w`
in the other. -/
inductive Replaces (v w : Value) : Value → Value → Prop
  | item (before after : List Value) :
      Replaces v w (list (before ++ v :: after)) (list (before ++ w :: after))
  | inItem (before after : List Value) {a b : Value} : Replaces v w a b →
      Replaces v w (list (before ++ a :: after)) (list (before ++ b :: after))
  | inField (before after : List (String × Value)) (key : String) {a b : Value} : Replaces v w a b →
      Replaces v w (record (before ++ (key, a) :: after)) (record (before ++ (key, b) :: after))

theorem looseEqAll_replace {a b : Value} (before after : List Value) {us : List Value}
    (h : ∀ u ∈ us, a.looseEq u = b.looseEq u) :
    looseEqAll (before ++ a :: after) us = looseEqAll (before ++ b :: after) us := by
  induction before generalizing us with
  | nil =>
    cases us with
    | nil => simp only [List.nil_append, looseEqAll]
    | cons u us => simp only [List.nil_append, looseEqAll, h u List.mem_cons_self]
  | cons v before ih =>
    cases us with
    | nil => simp only [List.cons_append, looseEqAll]
    | cons u us =>
      simp only [List.cons_append, looseEqAll, ih fun x hx => h x (List.mem_cons_of_mem u hx)]

theorem strictEqFields_replace {a b : Value} (before after : List (String × Value)) (key : String)
    {fs : List (String × Value)} (h : ∀ f ∈ fs, a.strictEq f.2 = b.strictEq f.2) :
    strictEqFields (before ++ (key, a) :: after) fs =
      strictEqFields (before ++ (key, b) :: after) fs := by
  induction before generalizing fs with
  | nil =>
    cases fs with
    | nil => simp only [List.nil_append, strictEqFields]
    | cons f fs => simp only [List.nil_append, strictEqFields_cons, h f List.mem_cons_self]
  | cons g before ih =>
    cases fs with
    | nil => simp only [List.cons_append, strictEqFields]
    | cons f fs =>
      simp only [List.cons_append, strictEqFields_cons, ih fun x hx => h x (List.mem_cons_of_mem f hx)]

theorem ints_subset_of_mem {u : Value} {us : List Value} (h : u ∈ us) :
    u.ints ⊆ (list us).ints := by
  rw [ints]
  induction h with
  | head us => exact List.subset_append_left _ _
  | tail v _ ih => exact fun n hn => List.mem_append_right _ (ih hn)

theorem ints_subset_of_field {f : String × Value} {fs : List (String × Value)} (h : f ∈ fs) :
    f.2.ints ⊆ (record fs).ints := by
  rw [ints]
  induction h with
  | head fs => exact List.subset_append_left _ _
  | tail g _ ih => exact fun n hn => List.mem_append_right _ (ih hn)

theorem Apart.subset {ns ms ms' : List Int64} (h : Apart ns ms) (hs : ms' ⊆ ms) : Apart ns ms' :=
  fun n hn m hm => h n hn m (hs hm)

/-- A value with an item of a list in it replaced by a loosely equal one equals the same values, loosely
and strictly. The two go together because records in between compare their fields strictly. -/
theorem Replaces.equal {v w a b : Value} (h : Replaces v w a b) (hvw : v.looseEq w = true)
    {u : Value} (hu : Apart (v.converted w) u.ints) :
    a.looseEq u = b.looseEq u ∧ a.strictEq u = b.strictEq u := by
  induction h generalizing u with
  | item before after =>
    cases u with
    | list us =>
      simp only [looseEq, strictEq, and_self]
      exact looseEqAll_replace before after fun x hx =>
        looseEq_congr hvw (hu.subset (ints_subset_of_mem hx))
    | _ => simp only [looseEq, strictEq, and_self]
  | inItem before after _ ih =>
    cases u with
    | list us =>
      simp only [looseEq, strictEq, and_self]
      exact looseEqAll_replace before after fun x hx =>
        (ih (hu.subset (ints_subset_of_mem hx))).1
    | _ => simp only [looseEq, strictEq, and_self]
  | inField before after key _ ih =>
    cases u with
    | record fs =>
      simp only [looseEq, strictEq, and_self]
      exact strictEqFields_replace before after key fun f hf =>
        (ih (hu.subset (ints_subset_of_field hf))).2
    | _ => simp only [looseEq, strictEq, and_self]

/-- Holds of values that no comparison with the values of a kind and no `switch` over them tells apart. -/
structure Indistinct (P : Value → Prop) (a b : Value) : Prop where
  eq : ∀ u, P u → binary .eq a u = binary .eq b u ∧ binary .eq u a = binary .eq u b
  ne : ∀ u, P u → binary .ne a u = binary .ne b u ∧ binary .ne u a = binary .ne u b
  subject : ∀ env x cs, (∀ c ∈ cs, Render.Ensures P (Code.eval env x c)) →
    x.matchesAny env a cs = x.matchesAny env b cs
  case : ∀ env x u, P u → ∀ cs ds, List.Forall₂ (fun c d => ∀ s,
    Code.eval env x d s = Code.eval env x c s ∨
      ∃ t, Code.eval env x c s = (.ok a, t) ∧ Code.eval env x d s = (.ok b, t)) cs ds →
    x.matchesAny env u cs = x.matchesAny env u ds

theorem Indistinct.of_looseEq {P : Value → Prop} {a b : Value}
    (h : ∀ u, P u → a.looseEq u = b.looseEq u) : Indistinct P a b := by
  have h' : ∀ u, P u → u.looseEq a = u.looseEq b := fun u hu => by
    rw [looseEq_comm u, looseEq_comm u, h u hu]
  refine ⟨fun u hu => ?_, fun u hu => ?_, fun env x cs hcs => ?_, fun env x u hu cs ds hcd => ?_⟩
  · simp only [binary, h u hu, h' u hu, and_self]
  · simp only [binary, h u hu, h' u hu, and_self]
  · induction cs with
    | nil => rfl
    | cons c cs ih =>
      funext s
      rw [Activation.matchesAny, Activation.matchesAny, ih fun d hd => hcs d (.tail c hd),
        Render.bind_apply, Render.bind_apply]
      cases hc : Code.eval env x c s with
      | mk r t =>
        cases r with
        | error e => rfl
        | ok u => simp only [h u (hcs c List.mem_cons_self ⟨s, t, hc⟩)]
  · induction hcd with
    | nil => rfl
    | cons hcd _ ih =>
      funext s
      rw [Activation.matchesAny, Activation.matchesAny, ih, Render.bind_apply, Render.bind_apply]
      obtain hs | ⟨t, hc, hd⟩ := hcd s
      · rw [hs]
      · rw [hc, hd]
        simp only [h' u hu]

/-- Lists are loosely equal if and only if their items are, one by one; records are only if they have the
same keys, and loosely equal values under them or values of one provider. No comparison and no `switch`
notices that a value, or an item of a list at any depth of one, is replaced by a loosely equal one, unless
an integer has become a float, or a float an integer, and it meets another integer that is the same
float. -/
theorem replacing_unseen :
    (∀ vs ws, (list vs).looseEq (list ws) = true ↔
      List.Forall₂ (fun v w => v.looseEq w = true) vs ws) ∧
    (∀ fs gs, (record fs).looseEq (record gs) = true →
      List.Forall₂ (fun f g => f.1 = g.1 ∧
        (f.2.looseEq g.2 = true ∨ ∃ i a b, f.2 = lazy i a ∧ g.2 = lazy i b)) fs gs) ∧
    ∀ v w, v.looseEq w = true → ∀ a b, (a = v ∧ b = w) ∨ Replaces v w a b →
      Indistinct (fun u => Apart (v.converted w) u.ints) a b := by
  refine ⟨fun vs ws => ?_, fun fs gs h => ?_, fun v w hvw a b hab => ?_⟩
  · rw [looseEq, looseEqAll_iff]
  · rw [looseEq, strictEqFields_iff] at h
    exact h.imp fun f g hfg => ⟨hfg.1, looseEq_of_strictEq hfg.2⟩
  · refine .of_looseEq fun u hu => ?_
    obtain ⟨rfl, rfl⟩ | hab := hab
    · exact looseEq_congr hvw hu
    · exact (hab.equal hvw hu).1

/-- In a list in a record in a list, one as an integer and one as a float are the same to a list with two
in it. -/
theorem replacing_unseen_one :
    let row (v : Value) : Value := list [record [("pair", list [v, str "a"])], int 2]
    let other : Value := list [record [("pair", list [int 1, content .html "a"])], float 2]
    (int 1).looseEq (float 1) = true ∧ Apart ((int 1).converted (float 1)) other.ints ∧
      binary .eq (row (int 1)) other = .ok (bool true) ∧
      binary .eq (row (float 1)) other = .ok (bool true) := by
  intro row other
  have heq : (int 1).looseEq (float 1) = true := by
    rw [looseEq]
    decide
  have hrow : Replaces (int 1) (float 1) (row (int 1)) (row (float 1)) :=
    .inItem [] [int 2] (.inField [] [] "pair" (.item [] [str "a"]))
  have hapart : Apart ((int 1).converted (float 1)) other.ints := by
    simp [Apart, converted, other, ints, intsAmong, intsOfFields]
  have hfirst : binary .eq (row (int 1)) other = .ok (bool true) := by
    simp only [binary, row, other, looseEq, looseEqAll, strictEqFields, strictEq, Except.ok.injEq,
      bool.injEq]
    decide
  have hsame := ((replacing_unseen.2.2 _ _ heq _ _ (.inr hrow)).eq other hapart).1
  exact ⟨heq, hapart, hfirst, hsame ▸ hfirst⟩

/-- An integer that is no float equals the float nearest to it, and with that in its place a list equals
another list than before. -/
theorem replacing_seen :
    (int 9007199254740993).looseEq (float 9007199254740992) = true ∧
      binary .eq (list [int 9007199254740993]) (list [int 9007199254740992]) = .ok (bool false) ∧
      binary .eq (list [float 9007199254740992]) (list [int 9007199254740992]) = .ok (bool true) := by
  simp only [binary, looseEq, looseEqAll, Except.ok.injEq, bool.injEq]
  decide

end Value

end ResumableTemplates
