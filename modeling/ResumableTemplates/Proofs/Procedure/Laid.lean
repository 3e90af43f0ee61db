import ResumableTemplates.Proofs.Procedure.Flow

/-! Ops that are laid out as blocks, with jumps only inside them: forward over the branches of a
choice, and back to the head of a loop whose body leaves the loop's list and cursor alone. Such ops
have a typing for every position. -/
namespace ResumableTemplates

structure Plan where
  known : String → UInt64 → Prop
  header : Nat
  size : Nat
  points : Array ResumeEntry

def Plan.Values (K : Plan) (Γ : Typing) : Prop :=
  ∀ n type, Γ n = some type → n < K.header → type = .value

theorem Plan.Values.of_le {K : Plan} {Γ Δ : Typing} (h : K.Values Δ) (hle : Γ.Le Δ) :
    K.Values Γ := fun n type hn => h n type (hle n type hn)

/-- Holds of an op that is safe at a position, and that can be resumed there if it can pause. -/
structure Op.Fits (K : Plan) (p : Nat) (Γ : Typing) (op : Op) : Prop where
  safe : op.Safe K.known K.size Γ
  writes : ∀ n ∈ op.writes, K.header ≤ n
  point : ∀ point, op.point? = some point → ∃ live, K.points[point]? = some ⟨p, live⟩ ∧
    (∀ n ∈ live, K.header ≤ n ∧ n < K.size) ∧
      ∀ n type, Γ n = some type → n < K.header ∨ n ∈ live

def Typing.looping (Γ : Typing) (list cursor : Nat) : Typing :=
  (Γ.set list (some .list)).set cursor (some .cursor)

def Typing.round (Γ : Typing) (item : Nat) (index : Option Nat) : Typing :=
  index.toList.foldl (·.set · (some .value)) (Γ.set item (some .value))

/-- Holds of ops from a position on, with typings before and after them. -/
inductive Laid (K : Plan) : Nat → Typing → List Op → Typing → Prop
  | nil : K.Values Γ → Laid K p Γ [] Γ
  | op : op.Fits K p Γ → op.flows p Γ = [(p + 1, Δ)] → K.Values Γ → K.Values Δ →
      Laid K p Γ [op] Δ
  | append : Laid K p Γ xs Δ → Laid K (p + xs.length) Δ ys Θ → Laid K p Γ (xs ++ ys) Θ
  | weaken : Laid K p Γ ops Δ → Θ.Le Δ → Laid K p Γ ops Θ
  | branch : test.Fits K p Γ → test.flows p Γ = [(p + 1, Γ), (p + body.length + 2, Γ)] →
      Laid K (p + 1) Γ body Δ → Laid K (p + body.length + 2) Γ rest Δ →
      Laid K p Γ (test :: (body ++ .jump (p + body.length + 2 + rest.length) :: rest)) Δ
  | loop : (Op.forInit point items list cursor none).Fits K p Γ →
      (Op.forNext list cursor item index (p + body.length + 3)).Fits K (p + 1)
        (Γ.looping list cursor) →
      Laid K (p + 2) ((Γ.looping list cursor).round item index) body (Γ.looping list cursor) →
      (∀ op ∈ body, list ∉ op.writes ∧ cursor ∉ op.writes) → K.Values Γ →
      Laid K p Γ (.forInit point items list cursor none ::
        .forNext list cursor item index (p + body.length + 3) :: (body ++ [.jump (p + 1)]))
        (Γ.looping list cursor)
  | loopElse : (Op.forInit point items list cursor (some (p + body.length + 4))).Fits K p Γ →
      (Op.forNext list cursor item index (p + body.length + 3)).Fits K (p + 1)
        (Γ.looping list cursor) →
      Laid K (p + 2) ((Γ.looping list cursor).round item index) body (Γ.looping list cursor) →
      (∀ op ∈ body, list ∉ op.writes ∧ cursor ∉ op.writes) → K.Values Γ →
      Θ.Le (Γ.looping list cursor) → Laid K (p + body.length + 4) Θ rest Θ →
      Laid K p Γ (.forInit point items list cursor (some (p + body.length + 4)) ::
        .forNext list cursor item index (p + body.length + 3) ::
          (body ++ .jump (p + 1) :: .jump (p + body.length + 4 + rest.length) :: rest)) Θ

namespace Laid

variable {K : Plan} {p : Nat} {Γ Δ : Typing} {ops : List Op}

theorem values (h : Laid K p Γ ops Δ) : K.Values Γ ∧ K.Values Δ := by
  induction h with
  | nil h => exact ⟨h, h⟩
  | op _ _ h h' => exact ⟨h, h'⟩
  | append _ _ ih ih' => exact ⟨ih.1, ih'.2⟩
  | weaken _ hle ih => exact ⟨ih.1, ih.2.of_le hle⟩
  | branch _ _ _ _ ih ih' => exact ⟨ih.1, ih'.2⟩
  | loop _ _ _ _ h ih => exact ⟨h, ih.2⟩
  | loopElse _ _ _ _ h _ _ _ ih => exact ⟨h, ih.2⟩

end Laid

def Op.Noted (K : Plan) (N : Nat → Typing) (lo hi p : Nat) (op : Op) : Prop :=
  op.Fits K p (N p) ∧ ∀ q Θ, (q, Θ) ∈ op.flows p (N p) → lo ≤ q ∧ q ≤ hi ∧ (N q).Le Θ

def Throughout (P : Nat → Op → Prop) : Nat → List Op → Prop
  | _, [] => True
  | p, op :: ops => P p op ∧ Throughout P (p + 1) ops

namespace Throughout

variable {P Q : Nat → Op → Prop} {p : Nat} {ops xs ys : List Op}

theorem append_iff : Throughout P p (xs ++ ys) ↔
    Throughout P p xs ∧ Throughout P (p + xs.length) ys := by
  induction xs generalizing p with
  | nil => exact ⟨fun h => ⟨trivial, h⟩, fun h => h.2⟩
  | cons x xs ih =>
    simp only [List.cons_append, Throughout, ih, List.length_cons, and_assoc]
    rw [Nat.add_assoc, Nat.add_comm 1]

theorem get (h : Throughout P p ops) {i : Nat} {op : Op} (hi : ops[i]? = some op) :
    P (p + i) op := by
  induction ops generalizing p i with
  | nil => cases hi
  | cons x xs ih =>
    cases i with
    | zero =>
      cases hi
      exact h.1
    | succ i =>
      have := ih h.2 hi
      rwa [Nat.add_assoc, Nat.add_comm 1] at this

theorem mono (h : Throughout P p ops)
    (hPQ : ∀ q op, p ≤ q → q < p + ops.length → op ∈ ops → P q op → Q q op) :
    Throughout Q p ops := by
  induction ops generalizing p with
  | nil => trivial
  | cons x xs ih =>
    rw [List.length_cons] at hPQ
    exact ⟨hPQ p x (by omega) (by omega) List.mem_cons_self h.1,
      ih h.2 fun q op hq hq' hop => hPQ q op (by omega) (by omega) (List.mem_cons_of_mem _ hop)⟩

end Throughout

def Noted (K : Plan) (N : Nat → Typing) (lo hi : Nat) : Nat → List Op → Prop :=
  Throughout fun p op => op.Noted K N lo hi p

theorem Noted.congr {K : Plan} {N N' : Nat → Typing} {lo hi lo' hi' p : Nat} {ops : List Op}
    (h : Noted K N lo hi p ops) (hp : lo ≤ p) (hlen : p + ops.length ≤ hi)
    (hN : ∀ q, lo ≤ q → q ≤ hi → N' q = N q) (hlo : lo' ≤ lo) (hhi : hi ≤ hi') :
    Noted K N' lo' hi' p ops := by
  refine h.mono fun q op hq hq' _ hop => ?_
  have hNq := hN q (by omega) (by omega)
  refine ⟨hNq ▸ hop.1, fun r Θ hr => ?_⟩
  rw [hNq] at hr
  obtain ⟨hlo', hhi', hle⟩ := hop.2 r Θ hr
  exact ⟨by omega, by omega, (hN r hlo' hhi').symm ▸ hle⟩

def noteAt (N : Nat → Typing) (p : Nat) (Γ : Typing) : Nat → Typing := fun q => if q = p then Γ else N q

@[simp] theorem noteAt_same (N : Nat → Typing) (p : Nat) (Γ : Typing) : noteAt N p Γ p = Γ := if_pos rfl

theorem noteAt_other (N : Nat → Typing) {p q : Nat} (Γ : Typing) (h : q ≠ p) :
    noteAt N p Γ q = N q := if_neg h

theorem Op.fits_jump (K : Plan) (p target : Nat) (Γ : Typing) : (Op.jump target).Fits K p Γ :=
  ⟨trivial, fun _ h => (by cases h), fun _ h => (by cases h)⟩

namespace Laid

variable {K : Plan} {p : Nat} {Γ Δ : Typing} {ops : List Op}

structure Extends (K : Plan) (N : Nat → Typing) (p : Nat) (Γ : Typing) (ops : List Op)
    (N' : Nat → Typing) : Prop where
  outside : ∀ q, q < p ∨ p + ops.length ≤ q → N' q = N q
  first : (N' p).Le Γ
  values : ∀ q, K.Values (N' q)
  noted : Noted K N' p (p + ops.length) p ops

theorem values_noteAt {N : Nat → Typing} (hN : ∀ q, K.Values (N q)) (hΓ : K.Values Γ) (p q : Nat) :
    K.Values (noteAt N p Γ q) := by
  unfold noteAt
  split
  · exact hΓ
  · exact hN q

/-- Holds of ops to which whatever fits their end can be extended, with typings of their own at some
positions that they can be entered at. -/
structure Extendable (K : Plan) (p : Nat) (Γ : Typing) (entries : List (Nat × Typing))
    (ops : List Op) (Δ : Typing) : Prop where
  within : ∀ q Θ, (q, Θ) ∈ entries → p ≤ q ∧ q ≤ p + ops.length
  extension : ∀ N : Nat → Typing, (∀ q, K.Values (N q)) → (N (p + ops.length)).Le Δ →
    ∃ N', Extends K N p Γ ops N' ∧ ∀ q Θ, (q, Θ) ∈ entries → (N' q).Le Θ

namespace Extendable

variable {Θ : Typing} {E F : List (Nat × Typing)} {xs ys body : List Op} {q list cursor item : Nat}
  {index : Option Nat}

theorem nil : Extendable K p Γ [] [] Γ where
  within _ _ hq := by cases hq
  extension N hN hend := ⟨N, ⟨fun _ _ => rfl, hend, hN, trivial⟩, fun _ _ hq => by cases hq⟩

theorem weaken (h : Extendable K p Γ E ops Δ) (hle : Θ.Le Δ) : Extendable K p Γ E ops Θ :=
  ⟨h.within, fun N hN hend => h.extension N hN (hend.trans hle)⟩

theorem closed (h : Extendable K p Γ E ops Δ) : Extendable K p Γ [] ops Δ where
  within _ _ hq := by cases hq
  extension N hN hend := by
    obtain ⟨N', h', -⟩ := h.extension N hN hend
    exact ⟨N', h', fun _ _ hq => by cases hq⟩

theorem cons {op : Op} (hfits : op.Fits K p Γ) (hΓ : K.Values Γ)
    (hflow : ∀ q Ξ, (q, Ξ) ∈ op.flows p Γ →
      ∃ Ξ', (q, Ξ') ∈ (p + 1, Θ) :: (p + 1 + ops.length, Δ) :: E ∧ Ξ'.Le Ξ)
    (h : Extendable K (p + 1) Θ E ops Δ) : Extendable K p Γ ((p + 1, Θ) :: E) (op :: ops) Δ where
  within q Ξ hq := by
    rw [List.length_cons]
    cases hq with
    | head => exact ⟨by omega, by omega⟩
    | tail _ hq =>
      have := h.within q Ξ hq
      omega
  extension N hN hend := by
    rw [List.length_cons, Nat.add_comm ops.length, ← Nat.add_assoc] at hend
    obtain ⟨N₁, h₁, hentries⟩ := h.extension N hN hend
    have hother : ∀ q, q ≠ p → noteAt N₁ p Γ q = N₁ q := fun q hq => noteAt_other _ _ hq
    have hfirst : (noteAt N₁ p Γ (p + 1)).Le Θ := by
      rw [hother _ (by omega)]
      exact h₁.first
    have hinner : ∀ q Ξ, (q, Ξ) ∈ E → (noteAt N₁ p Γ q).Le Ξ := fun q Ξ hq => by
      rw [hother _ (by have := h.within q Ξ hq; omega)]
      exact hentries q Ξ hq
    refine ⟨noteAt N₁ p Γ, ⟨fun q hq => ?_, by rw [noteAt_same]; exact .refl _,
      values_noteAt h₁.values hΓ p, ⟨by rwa [noteAt_same], fun q Ξ hq => ?_⟩, ?_⟩, fun q Ξ hq => ?_⟩
    · rw [List.length_cons] at hq
      rw [hother q (by omega), h₁.outside q (by omega)]
    · rw [noteAt_same] at hq
      rw [List.length_cons]
      obtain ⟨Ξ', hmem, hle⟩ := hflow q Ξ hq
      cases hmem with
      | head => exact ⟨by omega, by omega, hfirst.trans hle⟩
      | tail _ hmem =>
        cases hmem with
        | head =>
          refine ⟨by omega, by omega, ?_⟩
          rw [hother _ (by omega), h₁.outside _ (by omega)]
          exact hend.trans hle
        | tail _ hmem =>
          have := h.within q Ξ' hmem
          exact ⟨by omega, by omega, (hinner q Ξ' hmem).trans hle⟩
    · rw [List.length_cons]
      exact h₁.noted.congr (by omega) (by omega) (fun q _ _ => hother q (by omega)) (by omega)
        (by omega)
    · cases hq with
      | head => exact hfirst
      | tail _ hq => exact hinner q Ξ hq

theorem append (hx : Extendable K p Γ E xs Δ) (hy : Extendable K q Δ F ys Θ)
    (hq : q = p + xs.length) : Extendable K p Γ (E ++ (q, Δ) :: F) (xs ++ ys) Θ where
  within r Ξ hr := by
    rw [List.length_append]
    obtain hr | hr := List.mem_append.1 hr
    · have := hx.within r Ξ hr
      omega
    · cases hr with
      | head => exact ⟨by omega, by omega⟩
      | tail _ hr =>
        have := hy.within r Ξ hr
        omega
  extension N hN hend := by
    subst hq
    rw [List.length_append, ← Nat.add_assoc] at hend
    -- From the end backwards: what the second begins with is what the end of the first has to fit.
    obtain ⟨N₂, h₂, hF⟩ := hy.extension N hN hend
    obtain ⟨N₁, h₁, hE⟩ := hx.extension N₂ h₂.values h₂.first
    refine ⟨N₁, ⟨fun q hq => ?_, h₁.first, h₁.values, Throughout.append_iff.2 ⟨?_, ?_⟩⟩,
      fun q Ξ hq => ?_⟩
    · rw [List.length_append] at hq
      rw [h₁.outside q (by omega), h₂.outside q (by omega)]
    · rw [List.length_append]
      exact h₁.noted.congr (by omega) (by omega) (fun _ _ _ => rfl) (by omega) (by omega)
    · rw [List.length_append]
      exact h₂.noted.congr (by omega) (by omega) (fun q _ _ => h₁.outside q (by omega)) (by omega)
        (by omega)
    · obtain hq | hq := List.mem_append.1 hq
      · exact hE q Ξ hq
      · cases hq with
        | head =>
          rw [h₁.outside _ (by omega)]
          exact h₂.first
        | tail _ hq =>
          rw [h₁.outside _ (by have := hy.within q Ξ hq; omega)]
          exact hF q Ξ hq

theorem skip (hΓ : K.Values Γ) (hle : Δ.Le Γ) (h : Extendable K (p + 1) Θ E ops Δ) :
    Extendable K p Γ ((p + 1, Θ) :: E) (.jump (p + 1 + ops.length) :: ops) Δ :=
  .cons (Op.fits_jump _ _ _ _) hΓ (fun q Ξ hq => by
    cases List.mem_singleton.1 hq
    exact ⟨Δ, .tail _ (.head _), hle⟩) h

/-- The rounds of a loop: what is sure at its head is so in all rounds, as the body leaves it so. -/
theorem round (hnext : (Op.forNext list cursor item index (p + body.length + 2)).Fits K p Γ)
    (hΓ : K.Values Γ) (hbody : Extendable K (p + 1) (Γ.round item index) E body Γ) :
    Extendable K p Γ [] (.forNext list cursor item index (p + body.length + 2) ::
      (body ++ [.jump p])) Γ where
  within _ _ hq := by cases hq
  extension N hN hend := by
    have hlen : p + (Op.forNext list cursor item index (p + body.length + 2) ::
        (body ++ [.jump p])).length = p + body.length + 2 := by simp; omega
    rw [hlen] at hend
    -- The jump back has the typing of the head, and the body is extended from there.
    let back := p + 1 + body.length
    obtain ⟨N₁, h₁, -⟩ := hbody.extension (noteAt N back Γ) (values_noteAt hN hΓ _) (by
      rw [noteAt_same]
      exact .refl _)
    have hother : ∀ q, q ≠ p → noteAt N₁ p Γ q = N₁ q := fun q hq => noteAt_other _ _ hq
    have hout : ∀ q, q < p ∨ p + body.length + 2 ≤ q → noteAt N₁ p Γ q = N q := fun q hq => by
      rw [hother q (by omega), h₁.outside q (by omega), noteAt_other _ _ (by omega)]
    have hback : noteAt N₁ p Γ back = Γ := by
      rw [hother back (by omega), h₁.outside back (by omega), noteAt_same]
    refine ⟨noteAt N₁ p Γ, ⟨fun q hq => hout q (by omega), by rw [noteAt_same]; exact .refl _,
      values_noteAt h₁.values hΓ _, ?_⟩, fun _ _ hq => by cases hq⟩
    rw [hlen]
    refine ⟨⟨by rwa [noteAt_same], fun q Ξ hq => ?_⟩, Throughout.append_iff.2
      ⟨?_, ⟨Op.fits_jump _ _ _ _, fun q Ξ hq => ?_⟩, trivial⟩⟩
    · rw [noteAt_same] at hq
      simp only [Op.flows, List.mem_cons, List.not_mem_nil, or_false] at hq
      obtain hq | hq := hq
      · cases hq
        exact ⟨by omega, by omega, (hout (p + body.length + 2) (by omega)).symm ▸ hend⟩
      · cases hq
        exact ⟨by omega, by omega, (hother (p + 1) (by omega)).symm ▸ h₁.first⟩
    · exact h₁.noted.congr (by omega) (by omega) (fun q _ _ => hother q (by omega)) (by omega)
        (by omega)
    · rw [hback] at hq
      cases List.mem_singleton.1 hq
      refine ⟨by omega, by omega, ?_⟩
      rw [noteAt_same]
      exact .refl _

end Extendable

/-- What fits the end of ops that are laid out can be extended to them. -/
theorem extendable (h : Laid K p Γ ops Δ) : Extendable K p Γ [] ops Δ := by
  induction h with
  | nil => exact .nil
  | op hfits hflow hΓ =>
    refine .closed (.cons hfits hΓ (fun q Ξ hq => ?_) .nil)
    rw [hflow] at hq
    cases List.mem_singleton.1 hq
    exact ⟨_, .head _, .refl _⟩
  | append _ _ ih ih' => exact (ih.append ih' rfl).closed
  | weaken _ hle ih => exact ih.weaken hle
  | @branch p Γ body Δ rest test hfits hflow hbody _ ih ih' =>
    have hskip := Extendable.skip (p := p + body.length + 1) hbody.values.2 (.refl _) ih'
    refine .closed (.cons hfits hbody.values.1 (fun q Ξ hq => ?_)
      (ih.append hskip (Nat.add_right_comm ..)))
    rw [hflow] at hq
    simp only [List.mem_cons, List.not_mem_nil, or_false] at hq
    obtain hq | hq := hq
    · cases hq
      exact ⟨_, .head _, .refl _⟩
    · cases hq
      exact ⟨_, by simp, .refl _⟩
  | @loop point items list cursor p Γ item index body hinit hnext hbody _ hΓ ih =>
    have hexit : p + 1 + body.length + 2 = p + body.length + 3 := by omega
    have hround := Extendable.round (hexit ▸ hnext) hbody.values.2 ih
    rw [hexit] at hround
    refine .closed (.cons hinit hΓ (fun q Ξ hq => ?_) hround)
    cases List.mem_singleton.1 hq
    exact ⟨_, .head _, .refl _⟩
  | @loopElse point items list cursor p Γ item index body Θ rest hinit hnext hbody _ hΓ hle _ ih ih' =>
    have hexit : p + 1 + body.length + 2 = p + body.length + 3 := by omega
    have hround := Extendable.round (hexit ▸ hnext) hbody.values.2 ih
    rw [hexit] at hround
    have hskip := Extendable.skip (p := p + body.length + 3) hbody.values.2 hle ih'
    have hblock := hround.append hskip (by simp; omega)
    rw [List.cons_append, List.append_assoc] at hblock
    refine .closed (.cons hinit hΓ (fun q Ξ hq => ?_) hblock)
    cases hq with
    | head => exact ⟨_, .head _, .refl _⟩
    | tail _ hq =>
      cases List.mem_singleton.1 hq
      exact ⟨Θ, by simp, hle⟩

end Laid

/-- A template whose header and ops are laid out has a certificate. -/
theorem Laid.exists_flow {K : Plan} {t : CompiledTemplate} {Δ : Typing}
    (h : Laid K 0 t.procedure.filled t.procedure.ops.toList Δ) (hheader : K.header = t.procedure.header)
    (hsize : K.size = t.procedure.layout.size) (hpoints : K.points = t.procedure.points)
    (hslots : t.procedure.params.map (·.slot) ++ t.procedure.state.map (·.slot) =
      List.range t.procedure.header) (hroom : t.procedure.header ≤ t.procedure.layout.size)
    (hdefaults : ∀ b ∈ t.procedure.params, ∀ v, b.default = some v → v.IsPlain)
    (hstate : ∀ b ∈ t.procedure.state, b.value.IsPlain) : ∃ notes, Flow K.known t notes := by
  obtain ⟨N, hN, -⟩ := h.extendable.extension (fun _ => Δ) (fun _ => h.values.2) (.refl Δ)
  have hop : ∀ (p : Nat) (op : Op), t.procedure.ops[p]? = some op →
      op.Noted K N 0 (0 + t.procedure.ops.toList.length) p := by
    intro p op ho
    exact Nat.zero_add p ▸ hN.noted.get (i := p) (by rwa [Array.getElem?_toList])
  refine ⟨N, hslots, hroom, hdefaults, hstate, hN.first, ?_, ?_, ?_, ?_, ?_⟩
  · exact fun p n type hn hlt => hN.values p n type hn (hheader ▸ hlt)
  · exact fun p op ho => hsize ▸ (hop p op ho).1.safe
  · exact fun p op ho q Γ hq => ((hop p op ho).2 q Γ hq).2.2
  · intro p op point ho hpt
    have := (hop p op ho).1.point point hpt
    rwa [hheader, hsize, hpoints] at this
  · exact fun p op ho n hn => hheader ▸ (hop p op ho).1.writes n hn

end ResumableTemplates
