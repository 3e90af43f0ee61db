import ResumableTemplates.Proofs.Procedure.Laid
import ResumableTemplates.Proofs.Render.Congruence

/-! Ops that are laid out as blocks end. Each op that is done makes a rank smaller: positions count
down to the end of their block, and a round of a loop counts for all that its body may take. -/
namespace ResumableTemplates

def roundsBegun (locals : Array Local) (cursor : Nat) : Nat :=
  match locals[cursor]? with
  | some (.cursor n) => n
  | some (.value (.int n)) => n.toInt.toNat
  | _ => 0

/-- How many rounds a loop has left, at most `longest`. -/
def roundsLeft (longest : Nat) (locals : Array Local) (list cursor : Nat) : Nat :=
  match (locals[list]?).bind Local.value? with
  | some (.list vs) => min longest (vs.length - roundsBegun locals cursor)
  | _ => 0

theorem roundsLeft_le (longest : Nat) (locals : Array Local) (list cursor : Nat) :
    roundsLeft longest locals list cursor ≤ longest := by
  unfold roundsLeft
  split
  · exact Nat.min_le_left _ _
  · exact Nat.zero_le _

/-- Holds of slots before and after an op at a position, and of where it leads. -/
structure Op.Moves (longest p : Nat) (op : Op) (a : Array Local) (q : Nat) (b : Array Local) :
    Prop where
  target : q ∈ op.targets p
  other : ∀ n, n ∉ op.writes → b[n]? = a[n]?
  round : ∀ list cursor item index exit, op = .forNext list cursor item index exit →
    list ∉ op.writes → q = exit ∨
      q = p + 1 ∧ roundsLeft longest b list cursor < roundsLeft longest a list cursor

theorem Op.Moves.rounds {longest p q list cursor : Nat} {op : Op} {a b : Array Local}
    (h : op.Moves longest p a q b) (hl : list ∉ op.writes) (hc : cursor ∉ op.writes) :
    roundsLeft longest b list cursor = roundsLeft longest a list cursor := by
  simp only [roundsLeft, roundsBegun, h.other _ hl, h.other _ hc]

abbrev Rank := Nat → Array Local → Nat

def Op.Falls (longest : Nat) (rank : Rank) (lo hi p : Nat) (op : Op) : Prop :=
  ∀ a q b, op.Moves longest p a q b → lo ≤ q ∧ q ≤ hi ∧ rank q b < rank p a

/-- A bound on the steps that ops may take. -/
def weight (longest : Nat) (ops : List Op) : Nat :=
  ops.length * (longest + 2).pow (ops.countP Op.isRound)

/-- Holds of a rank that is bounded and made smaller by every op. -/
structure Ranked (longest p : Nat) (ops : List Op) (rank : Rank) : Prop where
  le : ∀ i ls, rank i ls ≤ weight longest ops
  falls : Throughout (fun i op => op.Falls longest rank p (p + ops.length) i) p ops

section Weight

variable (longest : Nat) (op : Op) (xs ys : List Op)

theorem weight_append_le : weight longest xs + weight longest ys ≤ weight longest (xs ++ ys) := by
  have hpow : ∀ n m, (longest + 2).pow n ≤ (longest + 2).pow (n + m) := fun n m =>
    Nat.pow_le_pow_right (Nat.succ_pos _) (Nat.le_add_right n m)
  simp only [weight, List.length_append, List.countP_append, Nat.add_mul]
  refine Nat.add_le_add (Nat.mul_le_mul_left _ (hpow _ _)) (Nat.mul_le_mul_left _ ?_)
  rw [Nat.add_comm (xs.countP _)]
  exact hpow _ _

theorem weight_singleton_pos : 1 ≤ weight longest [op] := by
  simp only [weight, List.length_singleton, Nat.one_mul]
  exact Nat.pow_pos (Nat.succ_pos _)

theorem weight_cons_le : 1 + weight longest xs ≤ weight longest (op :: xs) :=
  Nat.le_trans (Nat.add_le_add_right (weight_singleton_pos longest op) _)
    (weight_append_le longest [op] xs)

theorem weight_round_le (h : op.isRound) (target : Nat) :
    (longest + 1) * (weight longest xs + 2) + 1 ≤ weight longest (op :: (xs ++ [.jump target])) := by
  have hcount : (op :: (xs ++ [Op.jump target])).countP Op.isRound = xs.countP Op.isRound + 1 := by
    rw [List.countP_cons_of_pos h, List.countP_append]
    rfl
  have hpos : 1 ≤ (longest + 2).pow (xs.countP Op.isRound) := Nat.pow_pos (Nat.succ_pos _)
  have hle : longest ≤ longest * (longest + 2).pow (xs.countP Op.isRound) :=
    Nat.le_mul_of_pos_right _ hpos
  have hsucc : (longest + 2).pow (xs.countP Op.isRound + 1) =
      (longest + 2).pow (xs.countP Op.isRound) * (longest + 2) := rfl
  rw [weight, weight, hcount, hsucc]
  simp only [List.length_cons, List.length_append, List.length_nil]
  grind

end Weight

variable {longest p : Nat} {ops xs ys body rest : List Op} {op : Op}

theorem Op.Falls.of_le {rank : Rank} {lo hi lo' hi' : Nat} (h : op.Falls longest rank lo hi p)
    (hlo : lo' ≤ lo) (hhi : hi ≤ hi') : op.Falls longest rank lo' hi' p := fun a q b hm => by
  obtain ⟨hq, hq', hlt⟩ := h a q b hm
  exact ⟨by omega, by omega, hlt⟩

theorem Op.flows_targets (op : Op) (p : Nat) (Γ : Typing) : (op.flows p Γ).map (·.1) = op.targets p := by
  cases op with
  | forInit point c list cursor onEmpty => cases onEmpty <;> rfl
  | _ => rfl

theorem Ranked.nil : Ranked longest p [] fun _ _ => 0 where
  le _ _ := Nat.zero_le _
  falls := trivial

theorem Ranked.append {r₁ r₂ : Rank} {q : Nat} (h₁ : Ranked longest p xs r₁)
    (h₂ : Ranked longest q ys r₂) (hq : q = p + xs.length) : Ranked longest p (xs ++ ys)
      fun i ls => if i < q then r₁ i ls + weight longest ys else r₂ i ls where
  le i ls := by
    have := weight_append_le longest xs ys
    have := h₁.le i ls
    have := h₂.le i ls
    split <;> omega
  falls := by
    subst hq
    rw [List.length_append]
    refine Throughout.append_iff.2 ⟨h₁.falls.mono fun i op hi hi' _ hop a q b hm => ?_,
      h₂.falls.mono fun i op hi hi' _ hop a q b hm => ?_⟩
    · obtain ⟨hq, hq', hlt⟩ := hop a q b hm
      refine ⟨hq, by omega, ?_⟩
      have := h₂.le q b
      dsimp only
      rw [if_pos hi']
      split <;> omega
    · obtain ⟨hq, hq', hlt⟩ := hop a q b hm
      refine ⟨by omega, by omega, ?_⟩
      dsimp only
      rw [if_neg (by omega), if_neg (by omega)]
      exact hlt

theorem Ranked.cons {r : Rank} (hop : ∀ q ∈ op.targets p, p < q ∧ q ≤ p + 1 + xs.length)
    (h : Ranked longest (p + 1) xs r) : Ranked longest p (op :: xs)
      fun i ls => if i = p then weight longest xs + 1 else r i ls where
  le i ls := by
    have := weight_cons_le longest op xs
    have := h.le i ls
    split <;> omega
  falls := by
    rw [List.length_cons]
    refine ⟨fun a q b hm => ?_, h.falls.mono fun i op hi hi' _ hop a q b hm => ?_⟩
    · obtain ⟨hlo, hhi⟩ := hop q hm.target
      have := h.le q b
      refine ⟨by omega, by omega, ?_⟩
      dsimp only
      rw [if_pos rfl, if_neg (by omega)]
      omega
    · obtain ⟨hq, hq', hlt⟩ := hop a q b hm
      refine ⟨by omega, by omega, ?_⟩
      dsimp only
      rw [if_neg (by omega), if_neg (by omega)]
      exact hlt

theorem Ranked.skip {r : Rank} (h : Ranked longest (p + 1) xs r) :
    ∃ rank, Ranked longest p (.jump (p + 1 + xs.length) :: xs) rank :=
  ⟨_, .cons (fun q hq => by obtain rfl : q = p + 1 + xs.length := List.mem_singleton.1 hq; omega) h⟩

theorem Ranked.branch {rb rr : Rank} {test : Op}
    (htest : ∀ q ∈ test.targets p, q = p + 1 ∨ q = p + body.length + 2)
    (hb : Ranked longest (p + 1) body rb) (hr : Ranked longest (p + body.length + 2) rest rr) :
    ∃ rank, Ranked longest p
      (test :: (body ++ .jump (p + body.length + 2 + rest.length) :: rest)) rank := by
  obtain ⟨_, hskip⟩ := Ranked.skip (p := p + body.length + 1) hr
  refine ⟨_, .cons (fun q hq => ?_) (hb.append hskip (Nat.add_right_comm ..))⟩
  have := htest q hq
  simp only [List.length_append, List.length_cons]
  omega

/-- The rounds of a loop: each takes the steps of the body, and two more. -/
theorem Ranked.round {rb : Rank} {list cursor item : Nat} {index : Option Nat}
    (hb : Ranked longest (p + 1) body rb)
    (havoid : ∀ op ∈ body, list ∉ op.writes ∧ cursor ∉ op.writes)
    (hlist : list ∉ (Op.forNext list cursor item index (p + body.length + 2)).writes) :
    ∃ rank, Ranked longest p
      (.forNext list cursor item index (p + body.length + 2) :: (body ++ [.jump p])) rank := by
  let back := p + 1 + body.length
  let each := weight longest body + 2
  let left : Array Local → Nat := fun ls => roundsLeft longest ls list cursor * each
  let rank : Rank := fun i ls =>
    if back < i then 0
    else if i = p then left ls + 1
    else if i = back then left ls + 2
    else rb i ls + (left ls + 2)
  have hexit : ∀ i ls, back < i → rank i ls = 0 := fun i ls h => if_pos h
  have hhead : ∀ ls, rank p ls = left ls + 1 := fun ls => by
    simp only [rank, if_neg (show ¬ back < p by omega), if_true]
  have hback : ∀ ls, rank back ls = left ls + 2 := fun ls => by
    simp only [rank, if_neg (Nat.lt_irrefl back), if_neg (show back ≠ p by omega), if_true]
  have hbody : ∀ i ls, p < i → i < back → rank i ls = rb i ls + (left ls + 2) := fun i ls h h' => by
    simp only [rank, if_neg (show ¬ back < i by omega), if_neg (show i ≠ p by omega),
      if_neg (show i ≠ back by omega)]
  have hlen : (Op.forNext list cursor item index (p + body.length + 2) ::
      (body ++ [.jump p])).length = body.length + 2 := by simp
  refine ⟨rank, fun i ls => ?_, ?_⟩
  · have hweight := weight_round_le longest (.forNext list cursor item index (p + body.length + 2))
      body rfl p
    rw [Nat.add_mul, Nat.one_mul] at hweight
    have hmost : left ls ≤ longest * each := Nat.mul_le_mul_right _ (roundsLeft_le _ _ _ _)
    have := hb.le i ls
    change longest * each + each + 1 ≤ _ at hweight
    have heach : each = weight longest body + 2 := rfl
    simp only [rank]
    split
    · omega
    · split
      · omega
      · split <;> omega
  rw [hlen]
  refine ⟨fun a q b hm => ?_, Throughout.append_iff.2
    ⟨hb.falls.mono fun i op hi hi' hmem hop a q b hm => ?_, ⟨fun a q b hm => ?_, trivial⟩⟩⟩
  · rw [hhead]
    obtain rfl | ⟨rfl, hlt⟩ := hm.round _ _ _ _ _ rfl hlist
    · rw [hexit _ _ (by omega)]
      exact ⟨by omega, by omega, by omega⟩
    · -- the round that begins pays for the body and the way back
      have hround : left b + each ≤ left a := by
        have := Nat.mul_le_mul_right each hlt
        rwa [Nat.succ_mul] at this
      have heach : each = weight longest body + 2 := rfl
      refine ⟨by omega, by omega, ?_⟩
      by_cases hempty : p + 1 < back
      · have := hb.le (p + 1) b
        rw [hbody _ _ (by omega) hempty]
        omega
      · rw [show p + 1 = back by omega, hback]
        omega
  · obtain ⟨hq, hq', hlt⟩ := hop a q b hm
    have hstay : left b = left a :=
      congrArg (· * each) (hm.rounds (havoid op hmem).1 (havoid op hmem).2)
    refine ⟨by omega, by omega, ?_⟩
    rw [hbody i a (by omega) (by omega), ← hstay]
    by_cases hqb : q < back
    · rw [hbody q b (by omega) hqb]
      omega
    · rw [show q = back by omega, hback]
      omega
  · obtain rfl : q = p := List.mem_singleton.1 hm.target
    have hstay : left b = left a :=
      congrArg (· * each) (hm.rounds (by simp [Op.writes]) (by simp [Op.writes]))
    refine ⟨by omega, by omega, ?_⟩
    rw [hhead, hback, hstay]
    omega

theorem Op.Fits.list_not_written {K : Plan} {Γ : Typing} {list cursor item exit : Nat}
    {index : Option Nat} (h : (Op.forNext list cursor item index exit).Fits K p Γ) :
    list ∉ (Op.forNext list cursor item index exit).writes := by
  obtain ⟨-, -, hne, hslots⟩ := h.safe
  intro hmem
  cases hmem with
  | head => exact hne rfl
  | tail _ hmem => exact (hslots list hmem).2.1 rfl

/-- Ops that are laid out have a rank. -/
theorem Laid.exists_rank (longest : Nat) {K : Plan} {Γ Δ : Typing} (h : Laid K p Γ ops Δ) :
    ∃ rank, Ranked longest p ops rank := by
  induction h with
  | nil => exact ⟨_, .nil⟩
  | @op p Δ Γ op _ hflow =>
    refine ⟨_, .cons (fun q hq => ?_) .nil⟩
    rw [← op.flows_targets p Γ, hflow] at hq
    obtain rfl : q = p + 1 := List.mem_singleton.1 hq
    exact ⟨Nat.lt_succ_self p, Nat.le_refl _⟩
  | append _ _ ihx ihy =>
    obtain ⟨_, h₁⟩ := ihx
    obtain ⟨_, h₂⟩ := ihy
    exact ⟨_, h₁.append h₂ rfl⟩
  | weaken _ _ ih => exact ih
  | @branch p Γ body Δ rest test _ hflow _ _ ihb ihr =>
    obtain ⟨_, hb⟩ := ihb
    obtain ⟨_, hr⟩ := ihr
    refine Ranked.branch (fun q hq => ?_) hb hr
    rw [← test.flows_targets p Γ, hflow] at hq
    simpa using hq
  | @loop point items list cursor p Γ item index body _ hnext _ havoid _ ih =>
    obtain ⟨_, hb⟩ := ih
    have hexit : p + 1 + body.length + 2 = p + body.length + 3 := by omega
    obtain ⟨_, hround⟩ := hb.round havoid (hexit ▸ hnext.list_not_written)
    rw [hexit] at hround
    refine ⟨_, .cons (fun q hq => ?_) hround⟩
    obtain rfl : q = p + 1 := List.mem_singleton.1 hq
    omega
  | @loopElse point items list cursor p Γ item index body Θ rest _ hnext _ havoid _ _ _ ih ihr =>
    obtain ⟨_, hb⟩ := ih
    obtain ⟨_, hr⟩ := ihr
    have hexit : p + 1 + body.length + 2 = p + body.length + 3 := by omega
    obtain ⟨_, hround⟩ := hb.round havoid (hexit ▸ hnext.list_not_written)
    rw [hexit] at hround
    obtain ⟨_, hskip⟩ := Ranked.skip (p := p + body.length + 3) hr
    have hblock := hround.append hskip (by simp; omega)
    rw [List.cons_append, List.append_assoc] at hblock
    refine ⟨_, .cons (fun q hq => ?_) hblock⟩
    have hq : q = p + 1 ∨ q = p + body.length + 4 :=
      (List.mem_cons.1 hq).imp id List.mem_singleton.1
    simp only [List.length_cons, List.length_append]
    omega

section Codes

variable {n : Nat}

mutual

theorem Code.bears_of_longest : {c : Code} → c.longest ≤ n →
    c.Bears (· ≤ n) (·.longest ≤ n)
  | .const _, h, d, hd => by
    cases List.mem_singleton.1 hd
    exact h
  | .slot _, _, d, hd | .injected _, _, d, hd | .template .., _, d, hd | .element .., _, d, hd => by
    cases List.mem_singleton.1 hd
    trivial
  | .binary _ l r, h, d, hd => by
    simp only [Code.longest, Nat.max_le] at h
    simp only [Code.parts, List.mem_cons, List.mem_append] at hd
    obtain rfl | hd | hd := hd
    · trivial
    · exact Code.bears_of_longest h.1 d hd
    · exact Code.bears_of_longest h.2 d hd
  | .unary _ e, h, d, hd | .field e _ _, h, d, hd => by
    simp only [Code.parts, List.mem_cons] at hd
    obtain rfl | hd := hd
    · trivial
    · exact Code.bears_of_longest (c := e) h d hd
  | .cond c t e, h, d, hd => by
    simp only [Code.longest, Nat.max_le] at h
    simp only [Code.parts, List.mem_cons, List.mem_append] at hd
    obtain rfl | (hd | hd) | hd := hd
    · trivial
    · exact Code.bears_of_longest h.1 d hd
    · exact Code.bears_of_longest h.2.1 d hd
    · exact Code.bears_of_longest h.2.2 d hd
  | .list cs, h, d, hd => by
    simp only [Code.longest, Nat.max_le] at h
    simp only [Code.parts, List.mem_cons] at hd
    obtain rfl | hd := hd
    · exact h.1
    · exact Code.bears_of_longestAmong h.2 d hd
  | .record fs, h, d, hd => by
    simp only [Code.parts, List.mem_cons] at hd
    obtain rfl | hd := hd
    · trivial
    · exact Code.bears_of_longestField h d hd
  | .index b k, h, d, hd => by
    simp only [Code.longest, Nat.max_le] at h
    simp only [Code.parts, List.mem_cons, List.mem_append] at hd
    obtain rfl | hd | hd := hd
    · trivial
    · exact Code.bears_of_longest h.1 d hd
    · exact Code.bears_of_longest h.2 d hd
  | .builtin _ cs, h, d, hd => by
    simp only [Code.parts, List.mem_cons] at hd
    obtain rfl | hd := hd
    · trivial
    · exact Code.bears_of_longestAmong h d hd

theorem Code.bears_of_longestAmong : {cs : List Code} → Code.longestAmong cs ≤ n →
    ∀ d ∈ Code.partsAll cs, match d with
      | .const v => v.longest ≤ n
      | .list cs => cs.length ≤ n
      | _ => True
  | [], _, _, hd => by cases hd
  | c :: cs, h, d, hd => by
    simp only [Code.longestAmong, Nat.max_le] at h
    obtain hd | hd := List.mem_append.1 hd
    · exact Code.bears_of_longest h.1 d hd
    · exact Code.bears_of_longestAmong h.2 d hd

theorem Code.bears_of_longestField : {fs : List (String × Code)} → Code.longestField fs ≤ n →
    ∀ d ∈ Code.partsFields fs, match d with
      | .const v => v.longest ≤ n
      | .list cs => cs.length ≤ n
      | _ => True
  | [], _, _, hd => by cases hd
  | (_, c) :: fs, h, d, hd => by
    simp only [Code.longestField, Nat.max_le] at h
    obtain hd | hd := List.mem_append.1 hd
    · exact Code.bears_of_longest h.1 d hd
    · exact Code.bears_of_longestField h.2 d hd

end

end Codes

section Steps

variable {w : World} {d q n : Nat} {a b : Activation} {deeds : List Deed}

theorem Activation.nextItem_ok {list cursor item exit : Nat} {index : Option Nat} {act : Action}
    (h : a.nextItem p list cursor item index exit = .ok act) : act = .goto exit a ∨
      ∃ n vs c, a.cursor cursor = .ok n ∧ a.value list = .ok (.list vs) ∧ n < vs.length ∧
        act = .goto (p + 1) c ∧ c.locals[cursor]? = some (.cursor (n + 1)) := by
  simp only [nextItem, Except.bind_ok_iff] at h
  obtain ⟨n, hn, v, hv, h⟩ := h
  cases v with
  | list vs =>
    dsimp only at h
    cases hx : vs[n]? with
    | none =>
      rw [hx] at h
      cases h
      exact .inl rfl
    | some x =>
      rw [hx] at h
      obtain ⟨b, -, h⟩ := Except.bind_ok_iff.1 h
      obtain ⟨c, e, he, rfl⟩ : ∃ c e, Activation.set c cursor (.cursor (n + 1)) = .ok e ∧
          act = .goto (p + 1) e := by
        cases index with
        | none =>
          simp only [Except.pure_eq, Except.ok_bind] at h
          obtain ⟨e, he, h⟩ := Except.bind_ok_iff.1 h
          cases h
          exact ⟨b, e, he, rfl⟩
        | some slot =>
          obtain ⟨c, -, h⟩ := Except.bind_ok_iff.1 h
          obtain ⟨e, he, h⟩ := Except.bind_ok_iff.1 h
          cases h
          exact ⟨c, e, he, rfl⟩
      refine .inr ⟨n, vs, e, hn, hv, (List.getElem?_eq_some_iff.1 hx).1, rfl, ?_⟩
      unfold set at he
      split at he <;> cases he
      simp
  | _ => cases h

theorem Activation.roundsBegun_eq {cursor : Nat} (h : a.cursor cursor = .ok n) :
    roundsBegun a.locals cursor = n := by
  unfold Activation.cursor at h
  unfold roundsBegun
  split at h
  · rename_i hl
    cases h
    rw [hl]
  · rename_i hl
    split at h <;> cases h
    rw [hl]
  · cases h
  · cases h

/-- An op that sets its slots and goes on at one of its targets moves; at the head of a loop, a round has
begun or the loop is over. -/
theorem Op.Moves.of_changed {P : Value → Prop} {op : Op} (hch : a.Changed P op.writes b)
    (hq : q ∈ op.targets p) (hkeeps : a.Keeps (·.longest ≤ longest))
    (hround : ∀ list cursor item index exit, op = .forNext list cursor item index exit →
      a.nextItem p list cursor item index exit = .ok (.goto q b)) :
    op.Moves longest p a.locals q b.locals := by
  refine ⟨hq, fun n hn => hch.other hn, ?_⟩
  rintro list cursor item index exit rfl hlist
  obtain he | ⟨n, vs, c, hn, hv, hlt, he, hc⟩ :=
    Activation.nextItem_ok (hround list cursor item index exit rfl)
  · cases he
    exact .inl rfl
  · cases he
    have hla := Activation.value_eq hv
    have hlb := (congrArg (·.bind Local.value?) (hch.other hlist)).trans hla
    have hbegun := Activation.roundsBegun_eq hn
    have hbegun' : roundsBegun b.locals cursor = n + 1 := by simp only [roundsBegun, hc]
    have hvs : vs.length ≤ longest := (Nat.max_le.1 (hkeeps list _ hla)).1
    refine .inr ⟨rfl, ?_⟩
    simp only [roundsLeft, hla, hlb, hbegun, hbegun']
    omega

theorem Op.bears_of_longest {op : Op} (h : op.longest ≤ longest) :
    ∀ c ∈ op.stored, c.Bears (· ≤ longest) (·.longest ≤ longest) := by
  intro c hc
  cases op with
  | store point slot e forces => exact List.mem_singleton.1 hc ▸ Code.bears_of_longest h
  | forInit point e list cursor onEmpty => exact List.mem_singleton.1 hc ▸ Code.bears_of_longest h
  | _ => cases hc

/-- What an op does to the rounds of loops. -/
theorem Leads.moves (h : Leads w d (.op p a) deeds (.on q b))
    (hops : ∀ op ∈ a.template.procedure.ops, op.longest ≤ longest)
    (hkeeps : a.Keeps (·.longest ≤ longest)) (hinj : Record.All (·.longest ≤ longest) w.injected) :
    ∃ op, a.template.procedure.ops[p]? = some op ∧ op.Moves longest p a.locals q b.locals ∧
      b.Keeps (·.longest ≤ longest) := by
  obtain ⟨op, ho, hch⟩ := h.on_changed (· ≤ longest) (·.longest ≤ longest)
  obtain ⟨hchanged, htarget⟩ := hch ⟨Value.closed_longest longest, hkeeps, hinj⟩
    (Op.bears_of_longest (hops op (Array.mem_of_getElem? ho)))
  refine ⟨op, ho, .of_changed hchanged htarget hkeeps ?_, hchanged.keeps hkeeps⟩
  rintro list cursor item index exit rfl
  cases h with
  | goto ho' hact =>
    cases ho.symm.trans ho'
    exact hact
  | write ho' hact =>
    cases ho.symm.trans ho'
    exact absurd rfl ((Activation.action_changes' hact).write _ _ _ rfl).2.1
  | called ho' hact =>
    cases ho.symm.trans ho'
    obtain ⟨-, ⟨_, _, _, _, hop⟩, -⟩ := (Activation.action_changes' hact).call _ _ _ _ _ _ rfl
    cases hop

/-- A path of ops that are laid out has no more steps than their rank. -/
theorem Path.le_rank {rank : Rank} (h : Path w d n p a deeds q b)
    (hr : Ranked longest 0 a.template.procedure.ops.toList rank)
    (hops : ∀ op ∈ a.template.procedure.ops, op.longest ≤ longest)
    (hkeeps : a.Keeps (·.longest ≤ longest)) (hinj : Record.All (·.longest ≤ longest) w.injected) :
    n ≤ rank p a.locals := by
  induction h with
  | nil => exact Nat.zero_le _
  | @cons p a deeds q b n deeds' r c hop _ ih =>
    obtain ⟨op, ho, hm, hkeeps'⟩ := hop.moves hops hkeeps hinj
    have ht := hop.on_same.2.1
    have hle := ih (ht ▸ hr) (ht ▸ hops) hkeeps'
    have hfalls : op.Falls longest rank 0 (0 + a.template.procedure.ops.toList.length) p :=
      Nat.zero_add p ▸ hr.falls.get (i := p) (by rwa [Array.getElem?_toList])
    exact Nat.lt_of_le_of_lt hle (hfalls _ _ _ hm).2.2

end Steps

/-- Templates that are laid out end. -/
theorem Laid.ends {K : Plan} {t : CompiledTemplate} {Γ Δ : Typing}
    (h : Laid K 0 Γ t.procedure.ops.toList Δ) : t.Ends := by
  intro w d longest n p q a b deeds ht hops hkeeps hinj hpath
  subst ht
  obtain ⟨rank, hr⟩ := h.exists_rank longest
  have := Nat.le_trans (hpath.le_rank hr hops hkeeps hinj) (hr.le _ _)
  simpa [weight, Procedure.loops, Array.countP_toList] using this

end ResumableTemplates
