import ResumableTemplates.Proofs.Meaning.Scoping

/-! The scopes of a template under any commands. Beside them stands the history, which is kept from the
commands and their answers alone: every slot that was given, with the scope it was given to, and the
scopes still open. A scope is told by how many were entered before it, as its number comes again once
2 ^ 32 others were entered. Main statement: slots are numbered as they are given, the live ones are those
that open scopes hold and no entry fills, a name stands for its innermost open declaration, a scope that
is closed leaves no trace in what can be named and what is live, and what is refused changes nothing.
Where an outer scope has the number of the innermost one, that number closes the innermost, of which the
same is true. -/
namespace ResumableTemplates

namespace Scopes

inductive Command
  | enter
  | exit (id : UInt32)
  | declare (name : String) (type : VarType) (kind : SlotKind)
  | temporary (label : String)

def perform (s : Scopes) : Command → Except CompileError (Nat × Scopes)
  | .enter => .ok (s.enter.1.toNat, s.enter.2)
  | .exit id => (s.exit id).map (id.toNat, ·)
  | .declare name type kind => s.declare name type kind
  | .temporary label => s.temporary label

def after (s : Scopes) : List Command → Scopes
  | [] => s
  | c :: cs =>
    match s.perform c with
    | .ok (_, s') => s'.after cs
    | .error _ => s.after cs

/-- The number of the scope before which so many were entered. -/
def number (place : Nat) : UInt32 := .ofNat place

structure Grant where
  slot : Nat
  scope : Option Nat
  name? : Option String
  info : SlotInfo

def Grant.binding? (g : Grant) : Option (String × Nat) := g.name?.map (·, g.slot)

/-- What commands and their answers tell: how many scopes were entered, which are open, innermost first and
each by how many were entered before it, and the slots that were given, the latest first. -/
structure History where
  entered : Nat
  opened : List Nat
  grants : List Grant

namespace History

def empty : History := ⟨0, [], []⟩

def give (h : History) (slot : Nat) (name? : Option String) (info : SlotInfo) : History :=
  { h with grants := ⟨slot, h.opened.head?, name?, info⟩ :: h.grants }

def note (h : History) : Command → Nat → History
  | .enter, _ => { h with entered := h.entered + 1, opened := h.entered :: h.opened }
  | .exit _, _ => { h with opened := h.opened.tail }
  | .declare name type kind, slot => h.give slot (some name) ⟨name, type, kind⟩
  | .temporary label, slot => h.give slot none ⟨label, .unknown, .synthetic⟩

def Binds (h : History) (place : Nat) (name : String) : Prop :=
  ∃ g ∈ h.grants, g.scope = some place ∧ g.name? = some name

/-- Holds of a grant with a property to a scope that is open, with no such grant to a scope inside
it. -/
structure Innermost (h : History) (P : Grant → Prop) (g : Grant) : Prop where
  given : g ∈ h.grants
  property : P g
  isOpen : ∃ inner place outer, h.opened = inner ++ place :: outer ∧ g.scope = some place ∧
    ∀ g' ∈ h.grants, P g' → ∀ i ∈ inner, g'.scope ≠ some i

end History

def history (s : Scopes) (h : History) : List Command → History
  | [] => h
  | c :: cs =>
    match s.perform c with
    | .ok (n, s') => s'.history (h.note c n) cs
    | .error _ => s.history h cs

inductive Step (s : Scopes) (n : Nat) : Command → Scopes → Prop
  | enter : Step s n .enter s.enter.2
  | exit : s.stack = top :: rest → Step s n (.exit top.id) { s with stack := rest }
  | declare : s.Allocated n ⟨name, type, kind⟩ [(name, n)] s' →
      Step s n (.declare name type kind) s'
  | temporary : s.Allocated n ⟨label, .unknown, .synthetic⟩ [] s' → Step s n (.temporary label) s'

variable {s s' : Scopes} {h : History} {c : Command} {n : Nat} {info : SlotInfo}
  {bound : List (String × Nat)}

theorem id_of_exit {id : UInt32} (hexit : s.exit id = .ok s') :
    ∃ top, s.stack = top :: s'.stack ∧ top.id = id ∧ s' = { s with stack := s'.stack } := by
  unfold exit at hexit
  split at hexit
  · cases hexit
  · rename_i top rest hstack
    split at hexit
    · rename_i hid
      cases hexit
      exact ⟨top, hstack, hid, rfl⟩
    · cases hexit

theorem step_of_perform (hc : s.perform c = .ok (n, s')) : s.Step n c s' := by
  cases c with
  | enter =>
    cases hc
    exact .enter
  | exit id =>
    cases hexit : s.exit id with
    | error e =>
      rw [perform, hexit] at hc
      cases hc
    | ok t =>
      rw [perform, hexit] at hc
      cases hc
      obtain ⟨top, hstack, hid, hs'⟩ := id_of_exit hexit
      rw [hs', ← hid]
      exact .exit hstack
  | declare name type kind => exact .declare (declare_ok hc)
  | temporary label => exact .temporary (temporary_ok hc)

/-- What each step keeps holds after any commands. -/
theorem after_keeps {P : Scopes → History → Prop}
    (hP : ∀ s h n c s', P s h → s.Step n c s' → P s' (h.note c n)) (cs : List Command) (hs : P s h) :
    P (s.after cs) (s.history h cs) := by
  induction cs generalizing s h with
  | nil => exact hs
  | cons c cs ih =>
    rw [after, history]
    cases hc : s.perform c with
    | error e => exact ih hs
    | ok r => exact ih (hP _ _ _ _ _ hs (step_of_perform hc))

structure Orderly (s : Scopes) : Prop where
  descending : (s.slots.size :: s.stack.flatMap (·.owned)).Pairwise (· > ·)

namespace Orderly

theorem empty (template : String) : (Scopes.empty template).Orderly :=
  ⟨List.pairwise_singleton _ _⟩

theorem enter (hs : s.Orderly) : s.enter.2.Orderly := ⟨hs.descending⟩

theorem exit {top : Scope} {rest : List Scope} (hs : s.Orderly) (hstack : s.stack = top :: rest) :
    Orderly { s with stack := rest } := by
  have hdesc := hs.descending
  rw [hstack, List.flatMap_cons] at hdesc
  exact ⟨List.Pairwise.sublist (List.Sublist.cons_cons _ (List.sublist_append_right _ _)) hdesc⟩

theorem allocated (hs : s.Orderly) (ha : s.Allocated n info bound s') : s'.Orderly := by
  obtain ⟨top, rest, hstack, hstack'⟩ := ha.stack
  have hdesc := hs.descending
  rw [hstack] at hdesc
  constructor
  rw [hstack', ha.slots, ha.slot, Array.size_push]
  apply List.Pairwise.cons
  · intro m hm
    obtain rfl | hm := List.mem_cons.1 hm
    · exact Nat.lt_succ_self _
    · exact Nat.lt_succ_of_lt (List.rel_of_pairwise_cons hdesc hm)
  · exact hdesc

theorem step (hs : s.Orderly) (hc : s.Step n c s') : s'.Orderly := by
  cases hc with
  | enter => exact hs.enter
  | exit hstack => exact hs.exit hstack
  | declare ha | temporary ha => exact hs.allocated ha

theorem after (template : String) (cs : List Command) :
    ((Scopes.empty template).after cs).Orderly :=
  after_keeps (P := fun s _ => s.Orderly) (h := .empty) (fun _ _ _ _ _ hs hc => hs.step hc) cs
    (.empty template)

theorem lt_size (hs : s.Orderly) {sc : Scope} (hsc : sc ∈ s.stack) (hn : n ∈ sc.owned) :
    n < s.slots.size :=
  List.rel_of_pairwise_cons hs.descending (List.mem_flatMap.2 ⟨sc, hsc, hn⟩)

theorem live_ascending (hs : s.Orderly) : s.live.Pairwise (· < ·) := by
  unfold live
  rw [List.pairwise_reverse]
  exact (List.pairwise_cons.1 hs.descending).2.filter _

end Orderly

def History.to (h : History) (place : Nat) : List Grant := h.grants.filter (·.scope = some place)

theorem History.mem_to {place : Nat} {g : Grant} :
    g ∈ h.to place ↔ g ∈ h.grants ∧ g.scope = some place := by
  simp [History.to]

/-- Holds of a scope that is as the history tells of the one at a place. -/
structure History.Tells (h : History) (place : Nat) (sc : Scope) : Prop where
  id : sc.id = number place
  owned : sc.owned = (h.to place).map (·.slot)
  bindings : sc.bindings = (h.to place).filterMap Grant.binding?
  names : (sc.bindings.map (·.1)).Nodup

/-- Holds of scopes that are as their history tells. -/
structure Follows (s : Scopes) (h : History) : Prop where
  numbered : h.grants.map (·.slot) = (List.range s.slots.size).reverse
  layout : ∀ g ∈ h.grants, s.slots[g.slot]? = some g.info
  next : s.nextId = number h.entered
  places : (h.entered :: h.opened).Pairwise (· > ·)
  scopes : ∀ g ∈ h.grants, ∃ place, g.scope = some place ∧ place < h.entered
  stack : List.Forall₂ h.Tells h.opened s.stack

theorem lookup_eq_some_iff_mem {bs : List (String × Nat)} (hbs : (bs.map (·.1)).Nodup)
    {name : String} : bs.lookup name = some n ↔ (name, n) ∈ bs := by
  induction bs with
  | nil => simp
  | cons b bs ih =>
    obtain ⟨hb, hbs⟩ := List.nodup_cons.1 hbs
    rw [List.lookup_cons, List.mem_cons]
    by_cases hname : name = b.1
    · have hnot : (name, n) ∉ bs := fun hmem => hb (List.mem_map.2 ⟨_, hmem, hname⟩)
      simp [hname ▸ hnot, hname, Prod.ext_iff, eq_comm]
    · simp [beq_false_of_ne hname, Prod.ext_iff, hname, ih hbs]

theorem History.Tells.give_other {place other : Nat} {sc : Scope} (ht : h.Tells place sc)
    (hhead : h.opened.head? = some other) (hne : place ≠ other) (n : Nat) (name? : Option String)
    (info : SlotInfo) : (h.give n name? info).Tells place sc := by
  have hto : (h.give n name? info).to place = h.to place := by
    simp [History.to, History.give, hhead, hne.symm]
  exact ⟨ht.id, hto ▸ ht.owned, hto ▸ ht.bindings, ht.names⟩

theorem History.Tells.give {place : Nat} {top : Scope} {name? : Option String}
    (ht : h.Tells place top) (hhead : h.opened.head? = some place)
    (hnew : ∀ name ∈ name?, top.bindings.lookup name = none) (n : Nat) (info : SlotInfo) :
    (h.give n name? info).Tells place
      ⟨top.id, (name?.map (·, n)).toList ++ top.bindings, n :: top.owned⟩ := by
  have hto : (h.give n name? info).to place = ⟨n, some place, name?, info⟩ :: h.to place := by
    simp [History.to, History.give, hhead]
  refine ⟨ht.id, ?_, ?_, ?_⟩
  · rw [hto, List.map_cons, ← ht.owned]
  · rw [hto, ht.bindings]
    cases name? <;> rfl
  · cases name? with
    | none => exact ht.names
    | some name =>
      refine List.nodup_cons.2 ⟨fun hmem => ?_, ht.names⟩
      obtain ⟨b, hb, hname⟩ := List.mem_map.1 hmem
      exact bne_iff_ne.1 (List.lookup_eq_none_iff.1 (hnew name rfl) b hb) hname.symm

namespace Follows

theorem empty (template : String) : (Scopes.empty template).Follows .empty where
  numbered := rfl
  layout _ hg := nomatch hg
  next := rfl
  places := List.pairwise_singleton _ _
  scopes _ hg := nomatch hg
  stack := .nil

theorem to_entered (hs : s.Follows h) : h.to h.entered = [] := by
  rw [History.to, List.filter_eq_nil_iff]
  intro g hg hscope
  obtain ⟨place, hplace, hlt⟩ := hs.scopes g hg
  rw [decide_eq_true_iff, hplace] at hscope
  cases hscope
  exact Nat.lt_irrefl _ hlt

theorem enter (hs : s.Follows h) (n : Nat) : s.enter.2.Follows (h.note .enter n) where
  numbered := hs.numbered
  layout := hs.layout
  next := by
    rw [Scopes.enter, hs.next, number, History.note, number, UInt32.ofNat_add]
    rfl
  places := by
    apply List.Pairwise.cons _ hs.places
    intro place hplace
    obtain rfl | hplace := List.mem_cons.1 hplace
    · exact Nat.lt_succ_self _
    · exact Nat.lt_succ_of_lt (List.rel_of_pairwise_cons hs.places hplace)
  scopes g hg := by
    obtain ⟨place, hplace, hlt⟩ := hs.scopes g hg
    exact ⟨place, hplace, Nat.lt_succ_of_lt hlt⟩
  stack := by
    have hnone : (h.note .enter n).to h.entered = [] := hs.to_entered
    refine .cons ⟨hs.next, ?_, ?_, List.nodup_nil⟩ (hs.stack.imp fun _ _ ht => ⟨ht.1, ht.2, ht.3, ht.4⟩)
    · rw [hnone]
      rfl
    · rw [hnone]
      rfl

theorem exit {top : Scope} {rest : List Scope} (hs : s.Follows h) (hstack : s.stack = top :: rest)
    (id : UInt32) (n : Nat) : Follows { s with stack := rest } (h.note (.exit id) n) := by
  have hopen := hs.stack
  rw [hstack] at hopen
  obtain ⟨place, outer, -, hrest, hopened⟩ := List.forall₂_cons_right_iff.1 hopen
  refine ⟨hs.numbered, hs.layout, hs.next, ?_, hs.scopes, ?_⟩
  · exact List.Pairwise.sublist (List.Sublist.cons_cons _ (List.tail_sublist _)) hs.places
  · show List.Forall₂ _ h.opened.tail rest
    rw [hopened]
    exact hrest.imp fun _ _ ht => ⟨ht.1, ht.2, ht.3, ht.4⟩

theorem give {name? : Option String} (hs : s.Follows h)
    (ha : s.Allocated n info (name?.map (·, n)).toList s') : s'.Follows (h.give n name? info) := by
  obtain ⟨top, rest, hstack, hstack'⟩ := ha.stack
  have hopen := hs.stack
  rw [hstack] at hopen
  obtain ⟨place, outer, htop, hrest, hopened⟩ := List.forall₂_cons_right_iff.1 hopen
  have hhead : h.opened.head? = some place := by rw [hopened, List.head?_cons]
  have hplaces := hs.places
  rw [hopened, List.pairwise_cons, List.pairwise_cons] at hplaces
  obtain ⟨hbefore, houter, -⟩ := hplaces
  constructor
  · rw [History.give, List.map_cons, hs.numbered, ha.slots, Array.size_push, List.range_succ,
      List.reverse_append, ← ha.slot]
    rfl
  · intro g hg
    obtain rfl | hg := List.mem_cons.1 hg
    · rw [ha.slots, ha.slot, Array.getElem?_push_size]
    · exact ha.slots_grown _ _ (hs.layout g hg)
  · rw [ha.nextId]
    exact hs.next
  · exact hs.places
  · intro g hg
    obtain rfl | hg := List.mem_cons.1 hg
    · exact ⟨place, hhead, hbefore place List.mem_cons_self⟩
    · exact hs.scopes g hg
  · show List.Forall₂ _ h.opened s'.stack
    rw [hopened, hstack']
    refine .cons (htop.give hhead (fun name hname => ?_) n info) ?_
    · have hfresh := ha.fresh (name, n) (by simp [Option.mem_def.1 hname]) top
      exact hfresh (by rw [hstack, List.head?_cons]; rfl)
    -- Scopes further out are other scopes.
    · exact ((List.forall₂_and_left _ _).2 ⟨houter, hrest⟩).imp fun _ _ ht =>
        ht.2.give_other hhead (Nat.ne_of_lt ht.1) n name? info

theorem step (hs : s.Follows h) (hc : s.Step n c s') : s'.Follows (h.note c n) := by
  cases hc with
  | enter => exact hs.enter n
  | exit hstack => exact hs.exit hstack _ n
  | declare ha => exact hs.give ha
  | temporary ha => exact hs.give ha

theorem after (hs : s.Follows h) (cs : List Command) : (s.after cs).Follows (s.history h cs) :=
  after_keeps (fun _ _ _ _ _ hs hc => hs.step hc) cs hs

theorem opened (hs : s.Follows h) : s.stack.map (·.id) = h.opened.map number := by
  have hopen := hs.stack
  generalize s.stack = stack, h.opened = opened at hopen
  induction hopen with
  | nil => rfl
  | cons ht _ ih => rw [List.map_cons, List.map_cons, ih, ht.id]

end Follows

namespace History.Tells

variable {place : Nat} {sc : Scope}

theorem mem_owned (ht : h.Tells place sc) (n : Nat) :
    n ∈ sc.owned ↔ ∃ g ∈ h.grants, g.slot = n ∧ g.scope = some place := by
  simp only [ht.owned, List.mem_map, History.mem_to]
  exact exists_congr fun g => ⟨fun ⟨⟨hg, hscope⟩, hn⟩ => ⟨hg, hn, hscope⟩,
    fun ⟨hg, hn, hscope⟩ => ⟨⟨hg, hscope⟩, hn⟩⟩

theorem lookup_bindings (ht : h.Tells place sc) (name : String) (n : Nat) :
    sc.bindings.lookup name = some n ↔
      ∃ g ∈ h.grants, g.scope = some place ∧ g.name? = some name ∧ g.slot = n := by
  rw [lookup_eq_some_iff_mem ht.names, ht.bindings]
  simp [History.mem_to, Grant.binding?, and_assoc]

end History.Tells

namespace Follows

/-- A search through the open scopes, from the innermost one on, finds the innermost grant. -/
theorem search (hs : s.Follows h) {f : Scope → Option Nat} {P : Grant → Prop}
    (hf : ∀ place sc, h.Tells place sc → ∀ n, f sc = some n ↔
      ∃ g ∈ h.grants, g.scope = some place ∧ P g ∧ g.slot = n) (n : Nat) :
    s.stack.findSome? f = some n ↔ ∃ g, h.Innermost P g ∧ g.slot = n := by
  suffices hopen : s.stack.findSome? f = some n ↔ ∃ g ∈ h.grants, P g ∧ g.slot = n ∧
      ∃ inner place outer, h.opened = inner ++ place :: outer ∧ g.scope = some place ∧
        ∀ g' ∈ h.grants, P g' → ∀ i ∈ inner, g'.scope ≠ some i by
    rw [hopen]
    exact exists_congr fun g => ⟨fun ⟨hg, hP, hn, ho⟩ => ⟨⟨hg, hP, ho⟩, hn⟩,
      fun ⟨⟨hg, hP, ho⟩, hn⟩ => ⟨hg, hP, hn, ho⟩⟩
  have hstack := hs.stack
  generalize s.stack = stack, h.opened = opened at hstack
  induction hstack with
  | nil => simp
  | @cons place sc places stack ht _ ih =>
    have hfound := hf place sc ht
    rw [List.findSome?_cons]
    cases hsc : f sc with
    | some m =>
      obtain ⟨g, hg, hscope, hP, rfl⟩ := (hfound m).1 hsc
      constructor
      · rintro ⟨⟩
        exact ⟨g, hg, hP, rfl, [], place, places, rfl, hscope, fun _ _ _ _ hi => nomatch hi⟩
      · rintro ⟨g', hg', hP', rfl, inner, place', outer, hopened, hscope', hinner⟩
        cases inner with
        | nil =>
          cases hopened
          exact hsc.symm.trans ((hfound g'.slot).2 ⟨g', hg', hscope', hP', rfl⟩)
        | cons i inner =>
          cases hopened
          exact absurd hscope (hinner g hg hP place List.mem_cons_self)
    | none =>
      have hnone : ∀ g ∈ h.grants, P g → g.scope ≠ some place := fun g hg hP hscope => by
        rw [(hfound g.slot).2 ⟨g, hg, hscope, hP, rfl⟩] at hsc
        cases hsc
      refine ih.trans ⟨?_, ?_⟩
      · rintro ⟨g, hg, hP, hn, inner, place', outer, rfl, hscope, hinner⟩
        exact ⟨g, hg, hP, hn, place :: inner, place', outer, rfl, hscope, fun g' hg' hP' =>
          List.forall_mem_cons.2 ⟨hnone g' hg' hP', hinner g' hg' hP'⟩⟩
      · rintro ⟨g, hg, hP, hn, inner, place', outer, hopened, hscope, hinner⟩
        cases inner with
        | nil =>
          cases hopened
          exact absurd hscope (hnone g hg hP)
        | cons i inner =>
          cases hopened
          exact ⟨g, hg, hP, hn, inner, place', outer, rfl, hscope, fun g' hg' hP' i hi =>
            hinner g' hg' hP' i (List.mem_cons_of_mem _ hi)⟩

theorem lookup (hs : s.Follows h) (name : String) (n : Nat) :
    s.lookup? name = some n ↔ ∃ g, h.Innermost (·.name? = some name) g ∧ g.slot = n :=
  hs.search (fun _ _ ht n => ht.lookup_bindings name n) n

theorem kindOf? (hs : s.Follows h) {g : Grant} (hg : g ∈ h.grants) :
    s.kindOf? g.slot = some g.info.kind := by
  rw [Scopes.kindOf?, hs.layout g hg]
  rfl

theorem mem_live (hs : s.Follows h) (n : Nat) : n ∈ s.live ↔
    ∃ g ∈ h.grants, g.slot = n ∧ (∃ place ∈ h.opened, g.scope = some place) ∧
      g.info.kind.isRematerialized = false := by
  simp only [live, List.mem_reverse, List.mem_filter, List.mem_flatMap]
  constructor
  · rintro ⟨⟨sc, hsc, hn⟩, hkind⟩
    obtain ⟨place, hplace, ht⟩ := exists_of_forall₂_left (List.Forall₂.flip hs.stack) hsc
    obtain ⟨g, hg, rfl, hscope⟩ := (ht.mem_owned n).1 hn
    rw [hs.kindOf? hg] at hkind
    exact ⟨g, hg, rfl, ⟨place, hplace, hscope⟩, by simpa using hkind⟩
  · rintro ⟨g, hg, rfl, ⟨place, hplace, hscope⟩, hkind⟩
    obtain ⟨sc, hsc, ht⟩ := exists_of_forall₂_left hs.stack hplace
    exact ⟨⟨sc, hsc, (ht.mem_owned _).2 ⟨g, hg, rfl, hscope⟩⟩, by simp [hs.kindOf? hg, hkind]⟩

theorem size (hs : s.Follows h) : h.grants.length = s.slots.size := by
  simpa using congrArg List.length hs.numbered

end Follows

theorem Named.step (hs : s.Named) (hc : s.Step n c s') : s'.Named := by
  cases hc with
  | enter =>
    intro sc hsc
    cases hsc with
    | head => exact fun _ hb => nomatch hb
    | tail _ hsc => exact hs sc hsc
  | exit hstack => exact fun sc hsc => hs sc (hstack ▸ List.mem_cons_of_mem _ hsc)
  | declare ha => exact ha.named hs fun _ hb => List.mem_singleton.1 hb
  | temporary ha => exact ha.named hs fun _ hb => nomatch hb

theorem Named.after (template : String) (cs : List Command) :
    ((Scopes.empty template).after cs).Named :=
  after_keeps (P := fun s _ => s.Named) (h := .empty) (fun _ _ _ _ _ hs hc => hs.step hc) cs
    fun _ hsc => nomatch hsc

/-- Holds of scopes with their history behind some in which another one was entered: it is still open, on
top of those around it and under those inside it, or it is closed for good. -/
structure Encloses (s : Scopes) (h : History) (t : Scopes) (k : History) : Prop where
  slots : ∀ (i : Nat) info, s.slots[i]? = some info → t.slots[i]? = some info
  entered : h.entered < k.entered
  stack : (∃ inner scope places, t.stack = inner ++ scope :: s.stack ∧
      k.opened = places ++ h.entered :: h.opened ∧ places.length = inner.length ∧
      h.entered ∉ places) ∨ h.entered ∉ k.opened

namespace Encloses

variable {t t' : Scopes} {k : History}

theorem enter (s : Scopes) (h : History) (n : Nat) :
    s.Encloses h s.enter.2 (h.note .enter n) where
  slots _ _ hi := hi
  entered := Nat.lt_succ_self _
  stack := .inl ⟨[], _, [], rfl, rfl, rfl, List.not_mem_nil⟩

theorem allocated {name? : Option String} (hst : s.Encloses h t k) (ha : t.Allocated n info bound t') :
    s.Encloses h t' (k.give n name? info) := by
  refine ⟨fun i x hi => ha.slots_grown i x (hst.slots i x hi), hst.entered, hst.stack.imp ?_ id⟩
  rintro ⟨inner, scope, places, hopen, hplaces, hlen, hother⟩
  obtain ⟨top, rest, hstack, hstack'⟩ := ha.stack
  rw [hstack] at hopen
  rw [hstack']
  cases inner with
  | nil =>
    cases hopen
    exact ⟨[], _, places, rfl, hplaces, hlen, hother⟩
  | cons sc inner =>
    cases hopen
    exact ⟨_ :: inner, scope, places, rfl, hplaces, hlen, hother⟩

theorem exit {top : Scope} {rest : List Scope} (hst : s.Encloses h t k)
    (hfresh : h.entered ∉ h.opened) (hstack : t.stack = top :: rest) (id : UInt32) (n : Nat) :
    s.Encloses h { t with stack := rest } (k.note (.exit id) n) := by
  refine ⟨hst.slots, hst.entered, ?_⟩
  obtain ⟨inner, scope, places, hopen, hplaces, hlen, hother⟩ | hclosed := hst.stack
  · rw [hstack] at hopen
    cases inner with
    | nil =>
      cases hopen
      rw [List.length_eq_zero_iff.1 hlen] at hplaces
      refine .inr ?_
      rw [History.note, hplaces]
      exact hfresh
    | cons sc inner =>
      cases hopen
      cases places with
      | nil => cases hlen
      | cons place places =>
        refine .inl ⟨inner, scope, places, rfl, ?_, Nat.succ.inj hlen,
          fun hmem => hother (List.mem_cons_of_mem _ hmem)⟩
        rw [History.note, hplaces]
        rfl
  · exact .inr fun hmem => hclosed (List.mem_of_mem_tail hmem)

theorem step (hst : s.Encloses h t k) (hfresh : h.entered ∉ h.opened) (hc : t.Step n c t') :
    s.Encloses h t' (k.note c n) := by
  cases hc with
  | enter =>
    refine ⟨hst.slots, Nat.lt_succ_of_lt hst.entered, ?_⟩
    have hne : h.entered ≠ k.entered := Nat.ne_of_lt hst.entered
    obtain ⟨inner, scope, places, hopen, hplaces, hlen, hother⟩ | hclosed := hst.stack
    · exact .inl ⟨_ :: inner, scope, k.entered :: places, congrArg (_ :: ·) hopen,
        congrArg (_ :: ·) hplaces, congrArg (· + 1) hlen, by simp [hne, hother]⟩
    · exact .inr (by simp [History.note, hne, hclosed])
  | exit hstack => exact hst.exit hfresh hstack _ n
  | declare ha | temporary ha => exact hst.allocated ha

theorem closed (hst : s.Encloses h t k) (hhead : k.opened.head? = some h.entered) {id : UInt32}
    (hexit : t.exit id = .ok t') : t'.stack = s.stack ∧ t'.slots = t.slots := by
  obtain ⟨top, hstack, -, ht'⟩ := id_of_exit hexit
  have hslots : t'.slots = t.slots := by rw [ht']
  refine ⟨?_, hslots⟩
  obtain ⟨inner, scope, places, hopen, hplaces, hlen, hother⟩ | hclosed := hst.stack
  · cases places with
    | nil =>
      rw [List.length_eq_zero_iff.1 hlen.symm, hstack] at hopen
      exact (List.cons.inj hopen).2
    | cons place places =>
      rw [hplaces] at hhead
      exact absurd (Option.some.inj hhead ▸ List.mem_cons_self) hother
  · exact absurd (List.mem_of_head? hhead) hclosed

end Encloses

namespace Follows

end Follows

/-- So many scopes entered and closed at once, the first under a number. -/
def Command.visits : Nat → UInt32 → List Command
  | 0, _ => []
  | k + 1, id => .enter :: .exit id :: visits k (id + 1)

theorem after_visits (s : Scopes) (k : Nat) :
    s.after (Command.visits k s.nextId) = { s with nextId := s.nextId + .ofNat k } := by
  induction k generalizing s with
  | zero => simp [Command.visits, after]
  | succ k ih =>
    have hvisit : s.after (Command.visits (k + 1) s.nextId) =
        ({ s with nextId := s.nextId + 1 } : Scopes).after (Command.visits k (s.nextId + 1)) := by
      simp [Command.visits, after, perform, Scopes.enter, Scopes.exit, Except.map]
    rw [hvisit, ih]
    simp [UInt32.ofNat_add, UInt32.add_assoc, UInt32.add_comm]

/-- Numbers are not kept apart for ever: once all others were given, a scope gets that of the scope around
it, which then stands for the inner one of the two. -/
theorem outer_number_closes_inner (s : Scopes) {others : Nat} (hall : others + 1 = UInt32.size) :
    let outer := s.enter
    let inner := (outer.2.after (Command.visits others outer.2.nextId)).enter
    inner.1 = outer.1 ∧ (inner.2.exit outer.1).map (·.stack) = .ok outer.2.stack := by
  intro outer inner
  have hinner : inner = Scopes.enter { outer.2 with nextId := outer.2.nextId + .ofNat others } :=
    congrArg Scopes.enter (after_visits _ _)
  have hzero : 1 + UInt32.ofNat others = 0 := by
    rw [UInt32.add_comm, ← UInt32.ofNat_one, ← UInt32.ofNat_add, hall]
    decide
  -- After all the others were given, the next number is the one that the outer scope has.
  have hid : inner.1 = outer.1 := by
    rw [hinner]
    show s.nextId + 1 + UInt32.ofNat others = s.nextId
    rw [UInt32.add_assoc, hzero, UInt32.add_zero]
  refine ⟨hid, ?_⟩
  rw [← hid, hinner]
  simp [Scopes.enter, Scopes.exit, Except.map]

end Scopes

end ResumableTemplates
