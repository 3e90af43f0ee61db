import ResumableTemplates.Proofs.Compile.Growth
import ResumableTemplates.Proofs.Procedure.Effect

/-! Where compiled ops lead. The positions in a body are known only once the ops between are compiled;
this is about what has become of them. Main statement: all that is emitted for a fragment leads forward
and no further than its end, but for one jump of each loop, the one before its exit, which goes back to
its head. -/
namespace ResumableTemplates

/-- Holds of ops from a position on that lead forward and to a bound at most, but for one jump back to
the head of each loop. -/
structure Routed (p hi : Nat) (ops : List Op) : Prop where
  targets : ∀ op q, (op, q) ∈ ops.zipIdx p → ∀ t ∈ op.targets q, t ≤ hi ∧ (q < t ∨ op = .jump t)
  loops : ∀ q t, ((.jump t, q) ∈ ops.zipIdx p ∧ t ≤ q) ↔
    ∃ list cursor item index, (.forNext list cursor item index (q + 1), t) ∈ ops.zipIdx p

namespace Routed

variable {p hi hi' : Nat} {op : Op} {xs ys body : List Op} {list cursor item : Nat}
  {index : Option Nat}

theorem nil (p hi : Nat) : Routed p hi [] where
  targets _ _ h := nomatch h
  loops _ _ := by simp

theorem mono (h : Routed p hi xs) (hle : hi ≤ hi') : Routed p hi' xs where
  targets op q hop t ht := (h.targets op q hop t ht).imp_left fun htop => Nat.le_trans htop hle
  loops := h.loops

theorem single (ht : ∀ t ∈ op.targets p, p < t ∧ t ≤ hi) (hround : op.isRound = false) :
    Routed p hi [op] where
  targets op' q h t hmem := by
    obtain ⟨rfl, rfl⟩ : op' = op ∧ q = p := by simpa using h
    exact ⟨(ht t hmem).2, .inl (ht t hmem).1⟩
  loops q t := by
    constructor
    · rintro ⟨h, hle⟩
      obtain ⟨rfl, rfl⟩ : .jump t = op ∧ q = p := by simpa using h
      exact absurd (ht t List.mem_cons_self).1 (Nat.not_lt.2 hle)
    · rintro ⟨list, cursor, item, index, h⟩
      obtain ⟨rfl, -⟩ : .forNext list cursor item index (q + 1) = op ∧ t = p := by simpa using h
      cases hround

theorem append (hx : Routed p hi xs) (hy : Routed (p + xs.length) hi ys) :
    Routed p hi (xs ++ ys) where
  targets op q h := by
    rw [List.zipIdx_append, List.mem_append] at h
    exact h.elim (hx.targets op q) (hy.targets op q)
  loops q t := by
    simp only [List.zipIdx_append, List.mem_append, or_and_right, exists_or]
    exact or_congr (hx.loops q t) (hy.loops q t)

theorem loop (hbody : Routed (p + 1) hi body) (hexit : p + body.length + 2 ≤ hi) :
    Routed p hi (.forNext list cursor item index (p + body.length + 2) ::
      (body ++ [.jump p])) where
  targets op q h t ht := by
    rw [List.zipIdx_cons, List.zipIdx_append, List.mem_cons, List.mem_append] at h
    obtain h | h | h := h
    · obtain ⟨rfl, rfl⟩ := Prod.mk.inj h
      have : t = q + body.length + 2 ∨ t = q + 1 := by simpa [Op.targets, Op.flows] using ht
      exact ⟨by omega, .inl (by omega)⟩
    · exact hbody.targets op q h t ht
    · obtain ⟨rfl, rfl⟩ : op = .jump p ∧ q = p + 1 + body.length := by simpa using h
      obtain rfl : t = p := by simpa [Op.targets, Op.flows] using ht
      exact ⟨by omega, .inr rfl⟩
  loops q t := by
    rw [List.zipIdx_cons, List.zipIdx_append]
    simp only [List.mem_cons, List.mem_append]
    constructor
    · rintro ⟨h | h | h, hle⟩
      · cases h
      · obtain ⟨list', cursor', item', index', h⟩ := (hbody.loops q t).1 ⟨h, hle⟩
        exact ⟨list', cursor', item', index', .inr (.inl h)⟩
      · obtain ⟨rfl, rfl⟩ : t = p ∧ q = p + 1 + body.length := by simpa using h
        refine ⟨list, cursor, item, index, .inl ?_⟩
        rw [Nat.add_right_comm t 1]
    · rintro ⟨list', cursor', item', index', h | h | h⟩
      · simp only [Prod.mk.injEq, Op.forNext.injEq] at h
        obtain ⟨⟨-, -, -, -, hq⟩, rfl⟩ := h
        obtain rfl : q = t + 1 + body.length := by omega
        exact ⟨.inr (.inr (by simp)), by omega⟩
      · obtain ⟨h, hle⟩ := (hbody.loops q t).2 ⟨list', cursor', item', index', h⟩
        exact ⟨.inr (.inl h), hle⟩
      · simp at h

theorem step (ht : op.targets p = [p + 1]) (hround : op.isRound = false) : Routed p (p + 1) [op] := by
  apply single _ hround
  rw [ht]
  exact List.forall_mem_singleton.2 ⟨Nat.lt_succ_self p, Nat.le_refl _⟩

theorem trans {q : Nat} (hx : Routed p q xs) (hy : Routed q hi ys) (hq : q = p + xs.length)
    (hle : q ≤ hi) : Routed p hi (xs ++ ys) :=
  (hx.mono hle).append (hq ▸ hy)

theorem cons (ht : op.targets p = [p + 1]) (hround : op.isRound = false) (hle : p + 1 ≤ hi)
    (h : Routed (p + 1) hi xs) : Routed p hi (op :: xs) :=
  ((step ht hround).mono hle).append h

theorem past (hhi : hi = p + 1 + xs.length) (h : Routed (p + 1) hi xs) :
    Routed p hi (.jump hi :: xs) := by
  have hjump : Routed p hi [.jump hi] := by
    apply single _ rfl
    intro t ht
    obtain rfl := List.mem_singleton.1 ht
    omega
  exact hjump.append h

theorem choice {test : Op} {rest : List Op} (htest : test.targets p = [p + 1, p + body.length + 2])
    (hround : test.isRound = false) (hbody : Routed (p + 1) hi body)
    (hrest : Routed (p + body.length + 2) hi rest) (hhi : hi = p + body.length + 2 + rest.length) :
    Routed p hi (test :: (body ++ .jump hi :: rest)) := by
  have hstart : Routed p hi [test] := by
    apply single _ hround
    rw [htest]
    simp only [List.mem_cons, List.not_mem_nil, or_false]
    omega
  rw [show p + body.length + 2 = p + 1 + body.length + 1 by omega] at hrest
  exact hstart.append (hbody.append (past (by omega) hrest))

theorem each {point : Nat} {items : Code} {onEmpty : Option Nat} (hbody : Routed (p + 2) hi body)
    (hexit : p + body.length + 3 ≤ hi) (hempty : ∀ t ∈ onEmpty, p < t ∧ t ≤ hi) :
    Routed p hi (.forInit point items list cursor onEmpty ::
      .forNext list cursor item index (p + body.length + 3) :: (body ++ [.jump (p + 1)])) := by
  have hstart : Routed p hi [.forInit point items list cursor onEmpty] := by
    apply single _ rfl
    intro t ht
    have ht : t = p + 1 ∨ t ∈ onEmpty := by simpa [Op.targets, Op.flows] using ht
    obtain rfl | ht := ht
    · omega
    · exact hempty t ht
  have hloop : Routed (p + 1) hi (.forNext list cursor item index (p + 1 + body.length + 2) ::
      (body ++ [.jump (p + 1)])) := loop hbody (by omega)
  rw [show p + body.length + 3 = p + 1 + body.length + 2 by omega]
  exact hstart.append hloop

theorem eachElse {point : Nat} {items : Code} {rest : List Op} (hbody : Routed (p + 2) hi body)
    (hrest : Routed (p + body.length + 4) hi rest) (hhi : hi = p + body.length + 4 + rest.length) :
    Routed p hi (.forInit point items list cursor (some (p + body.length + 4)) ::
      .forNext list cursor item index (p + body.length + 3) ::
        (body ++ .jump (p + 1) :: .jump hi :: rest)) := by
  have hloop : Routed p hi (.forInit point items list cursor (some (p + body.length + 4)) ::
      .forNext list cursor item index (p + body.length + 3) :: (body ++ [.jump (p + 1)])) := by
    apply each hbody (by omega)
    rintro t ⟨⟩
    omega
  have hjump : Routed (p + body.length + 3) hi (.jump hi :: rest) := past (by omega) hrest
  have hlen : p + body.length + 3 = p + (Op.forInit point items list cursor
      (some (p + body.length + 4)) :: .forNext list cursor item index (p + body.length + 3) ::
        (body ++ [.jump (p + 1)])).length := by simp; omega
  have hall := hloop.append (hlen ▸ hjump)
  simpa using hall

end Routed

section Emits

variable {f g : Fragment} {σ τ υ χ ψ : CompileState} {e : Expr} {c : Code} {var : String}
  {index : Option String} {list cursor item hi : Nat} {position : Option Nat} {test : Op}
  {body ops rest : List Op}

theorem CompileState.Loops.positions (hc : e.compile.Yields σ c υ)
    (hpre : υ.entered.Loops var index list cursor item position χ) (hbody : Emits f χ.placed body ψ) :
    χ.position = σ.position + 1 ∧ χ.placed.position = σ.position + 2 ∧
      ψ.placed.position = σ.position + body.length + 3 := by
  have hhead : χ.position = υ.position + 1 := hpre.grows.2
  have hs := (Expr.compile_same hc).position
  have hend := hbody.position
  simp only [CompileState.placed] at *
  omega

namespace Routed

theorem emitted_each (hc : e.compile.Yields σ c υ)
    (hpre : υ.entered.Loops var index list cursor item position χ) (hbody : Emits f χ.placed body ψ)
    (h : Routed χ.placed.position ψ.position body) :
    Routed σ.position ψ.placed.position (.forInit υ.points.size c list cursor none ::
      .forNext list cursor item position ψ.placed.position :: (body ++ [.jump χ.position])) := by
  obtain ⟨hhead, hstart, hexit⟩ := hpre.positions hc hbody
  replace h := h.mono (Nat.le_succ ψ.position)
  change Routed _ ψ.placed.position _ at h
  rw [hstart, hexit] at h
  rw [hhead, hexit]
  exact .each h (Nat.le_refl _) fun _ ht => nomatch ht

theorem emitted_eachElse (hc : e.compile.Yields σ c υ)
    (hpre : υ.entered.Loops var index list cursor item position χ) (hbody : Emits f χ.placed body ψ)
    {stack : List Scope} (hrest : Emits g (ψ.placed.left stack).placed rest τ)
    (h : Routed χ.placed.position ψ.position body)
    (h' : Routed ψ.placed.placed.position τ.position rest) :
    Routed σ.position τ.position (.forInit υ.points.size c list cursor (some ψ.placed.placed.position) ::
      .forNext list cursor item position ψ.placed.position ::
        (body ++ .jump χ.position :: .jump τ.position :: rest)) := by
  obtain ⟨hhead, hstart, hexit⟩ := hpre.positions hc hbody
  have hempty : ψ.placed.placed.position = σ.position + body.length + 4 := congrArg (· + 1) hexit
  have hend : τ.position = ψ.placed.placed.position + rest.length := hrest.position
  rw [hempty] at hend h'
  have hle : ψ.position ≤ τ.position := by
    have : ψ.position + 1 = ψ.placed.position := rfl
    omega
  rw [hstart] at h
  rw [hhead, hexit, hempty]
  exact .eachElse (h.mono hle) h' hend

theorem emitted_choice (hs : σ.Same υ) (hbody : Emits f υ.pointed body χ)
    (hrest : Emits g χ.placed rest τ)
    (htest : test.targets σ.position = [σ.position + 1, χ.placed.position])
    (hround : test.isRound = false) (h : Routed υ.pointed.position χ.position body)
    (h' : Routed χ.placed.position τ.position rest) :
    Routed σ.position τ.position (test :: (body ++ .jump τ.position :: rest)) := by
  have hstart : υ.pointed.position = σ.position + 1 := congrArg (· + 1) hs.position
  have hnext : χ.placed.position = σ.position + body.length + 2 := by
    have := hbody.position
    simp only [CompileState.placed] at *
    omega
  have hend := hrest.position
  rw [hnext] at hend htest h'
  have hle : χ.position ≤ τ.position := by
    have : χ.position + 1 = χ.placed.position := rfl
    omega
  rw [hstart] at h
  exact .choice htest hround (h.mono hle) h' hend

theorem emitted_capture {buffer dest : Nat} {kind : ContentKind} (hs : υ.position = σ.position)
    (hbody : Emits f υ.placed body χ) (hhi : χ.placed.position ≤ hi)
    (h : Routed υ.placed.position χ.position body) (hrest : Routed χ.placed.position hi rest) :
    Routed σ.position hi
      (.beginCapture buffer :: (body ++ .endCapture buffer dest kind :: rest)) := by
  have hstart : υ.placed.position = σ.position + 1 := congrArg (· + 1) hs
  have hlen := hbody.position
  have hstop : Routed χ.position hi (.endCapture buffer dest kind :: rest) := .cons rfl rfl hhi hrest
  have hle : χ.position ≤ hi := Nat.le_of_succ_le hhi
  rw [hstart] at h hlen
  exact .cons rfl rfl (by omega) (h.trans hstop hlen hle)

end Routed

/-- All that is emitted for a fragment leads forward and to its end at most, but for the jumps back to
the heads of its loops. -/
theorem Emits.routed (h : Emits f σ ops τ) : Routed σ.position τ.position ops := by
  -- Positions alone carry this: each fragment begins where the one before it has ended.
  induction h with
  | noText | absent | noArgs | noChildren => exact .nil _ _
  | text => exact .step rfl rfl
  | raw _ ih | branch _ ih | switch _ ih | invoke _ ih | done _ ih | join _ ih | present _ ih
  | otherwise _ ih | noCase _ ih | scope _ _ ih => exact ih
  | print hc => exact (Expr.compile_same hc).position ▸ .step rfl rfl
  | each hc hpre hbody _ ih => exact .emitted_each hc hpre hbody ih
  | eachElse hc hpre hbody _ hother ih ih' => exact .emitted_eachElse hc hpre hbody hother ih ih'
  | bind hc hslot =>
    have hpos := (Compile.declare_grows hslot).2.1.trans (Expr.compile_same hc).position
    exact hpos ▸ .step rfl rfl
  | capture hbuffer hbody hdest ih =>
    have hpos := congrArg (· + 1) (Compile.declare_grows hdest).2.1
    exact .emitted_capture (Compile.temporary_grows hbuffer).2.1 hbody (Nat.le_of_eq hpos.symm) ih
      (.nil _ _)
  | tag hstart hbody hstop ih ih' ih'' | cons hstart hbody hstop ih ih' ih'' =>
    have hυ := hstart.position
    have hχ := hbody.position
    have hτ := hstop.position
    exact (ih.trans ih' hυ (by omega)).trans ih'' (by simp; omega) (by omega)
  | test hc hbody hrest ih ih' =>
    exact .emitted_choice (Expr.compile_same hc) hbody hrest rfl rfl ih ih'
  | selection hc hsubject hcases ih =>
    have hpos := (Compile.temporary_grows hsubject).2.1.trans (Expr.compile_same hc).position
    have hend := hcases.position
    exact hpos ▸ .cons rfl rfl (by simp only [CompileState.pointed] at hend; omega) ih
  | «case» hvalues hbody hrest ih ih' =>
    exact .emitted_choice (Compile.IsQuiet.all _ _ _ _ hvalues) hbody hrest rfl rfl ih ih'
  | call hargs hbase hcallee ih =>
    have hpos := (Compile.IsQuiet.callee _ _ _ _ hcallee).position.trans
      (Compile.IsQuiet.paramsBase _ _ _ _ hbase).position
    rw [← hpos] at ih
    exact ih.trans (.step rfl rfl) (hpos.trans hargs.position) (Nat.le_succ _)
  | value hc _ ih | keyed hc _ ih => exact (Expr.compile_same hc).position ▸ ih
  | content hbuffer hbody hrest ih ih' =>
    have hend := hrest.position
    exact .emitted_capture (Compile.temporary_grows hbuffer).2.1 hbody (by omega) ih ih'
  | child hn hns ih ih' =>
    have hυ := hn.position
    have hτ := hns.position
    exact ih.trans ih' hυ (by omega)

end Emits

end ResumableTemplates
