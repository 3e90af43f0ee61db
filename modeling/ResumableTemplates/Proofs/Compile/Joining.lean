import ResumableTemplates.Proofs.Compile.Certified
import ResumableTemplates.Proofs.Compile.Division
import ResumableTemplates.Proofs.Compile.Lexical
import Mathlib.Order.BoundedOrder.Lattice

/-! Joined texts. Two compilations of one template, of which the first joins adjacent texts, go on side by
side: they differ in ops, positions and resume points, and refuse the same. Where a text has yet to be
written by the first and has been written by the second, the first has a resume point less. -/
namespace ResumableTemplates

open CompileState

/-- Holds of states that differ in positions and resume points alone, of which the first has at least `d`
points less, and the second not more than there can be. -/
structure CompileState.Beside (d : Nat) (σ τ : CompileState) : Prop where
  scopes : σ.scopes = τ.scopes
  nextSite : σ.nextSite = τ.nextSite
  calls : σ.calls = τ.calls
  points : σ.points.size + d ≤ τ.points.size
  room : τ.points.size ≤ Scopes.limit

namespace CompileState.Beside

variable {σ τ : CompileState} {d : Nat}

theorem relax (h : σ.Beside d τ) {e : Nat} (he : e ≤ d) : σ.Beside e τ :=
  { h with points := Nat.le_trans (Nat.add_le_add_left he _) h.points }

theorem pointed_first (h : σ.Beside (d + 1) τ) : σ.pointed.Beside d τ where
  scopes := h.scopes
  nextSite := h.nextSite
  calls := h.calls
  points := by
    have := h.points
    simp only [pointed, Array.size_push]
    omega
  room := h.room

theorem pointed_second (h : σ.Beside d τ) (hroom : τ.points.size < Scopes.limit) :
    σ.Beside (d + 1) τ.pointed where
  scopes := h.scopes
  nextSite := h.nextSite
  calls := h.calls
  points := by
    have := h.points
    simp only [pointed, Array.size_push]
    omega
  room := by
    simp only [pointed, Array.size_push]
    omega

theorem pointed (h : σ.Beside d τ) (hroom : τ.points.size < Scopes.limit) :
    σ.pointed.Beside d τ.pointed :=
  (h.pointed_second hroom).pointed_first

theorem lt_limit (h : σ.Beside d τ) (hroom : τ.points.size < Scopes.limit) :
    σ.points.size < Scopes.limit := by
  have := h.points
  omega

end CompileState.Beside

/-- Holds of the ends of two compilations, the second of which began in a state and needs `k` resume
points: both have results, or both fail in the same way, unless the second runs out of points. -/
inductive Compile.Ends (R : α → β → Prop) (k : Nat) (τ : CompileState) :
    Except CompileError α × CompileState → Except CompileError β × CompileState → Prop
  | ok {a : α} {b : β} {σ' τ' : CompileState} (related : R a b) (beside : σ'.Beside 0 τ')
      (need : τ'.points.size ≤ τ.points.size + k) (template : τ'.scopes.template = τ.scopes.template) :
      Ends R k τ (.ok a, σ') (.ok b, τ')
  | failed (e : CompileError) (σ' τ' : CompileState) : Ends R k τ (.error e, σ') (.error e, τ')
  | full {x : Except CompileError α × CompileState} {τ' : CompileState}
      (need : Scopes.limit < τ.points.size + k) :
      Ends R k τ x (.error (.internal τ.scopes.template .tooManyPoints), τ')

/-- Holds of two compilations that go on side by side, from states of which the first has at least `d`
resume points less. -/
def Compile.Alongside (R : α → β → Prop) (d k : Nat) (m : Compile α) (n : Compile β) : Prop :=
  ∀ σ τ, σ.Beside d τ → Ends R k τ (m σ) (n τ)

namespace Compile.Ends

variable {R : α → β → Prop} {k l : Nat} {σ τ τ' : CompileState}
  {x : Except CompileError α × CompileState} {y : Except CompileError β × CompileState}

theorem shift (h : Ends R l τ' x y) (hpoints : τ'.points.size ≤ τ.points.size + k)
    (htemplate : τ'.scopes.template = τ.scopes.template) : Ends R (k + l) τ x y := by
  cases h with
  | ok hr hb hneed ht => exact .ok hr hb (by omega) (ht.trans htemplate)
  | failed e σ' τ' => exact .failed e σ' τ'
  | full hneed =>
    rw [htemplate]
    exact .full (by omega)

end Compile.Ends

namespace Compile.Alongside

variable {R : α → β → Prop} {S : γ → δ → Prop} {d k l : Nat} {m : Compile α} {n : Compile β}

abbrev Any : α → β → Prop := fun _ _ => True

theorem mono (h : Alongside R d k m n) (hk : k ≤ l) : Alongside R d l m n := by
  intro σ τ hστ
  have hends := h σ τ hστ
  generalize m σ = x, n τ = y at hends ⊢
  cases hends with
  | ok hr hb hneed ht => exact .ok hr hb (by omega) ht
  | failed e σ' τ' => exact .failed e σ' τ'
  | full hneed => exact .full (by omega)

theorem bind {f : α → Compile γ} {g : β → Compile δ} (h : Alongside R d k m n)
    (hf : ∀ a b, R a b → Alongside S 0 l (f a) (g b)) :
    Alongside S d (k + l) (m >>= f) (n >>= g) := by
  intro σ τ hστ
  have hends := h σ τ hστ
  rw [bind_apply, bind_apply]
  generalize m σ = x, n τ = y at hends
  cases hends with
  | ok hr hb hneed ht => exact (hf _ _ hr _ _ hb).shift hneed ht
  | failed e σ' τ' => exact .failed e σ' τ'
  | full hneed => exact .full (by omega)

theorem pure {a : α} {b : β} (h : R a b) : Alongside R 0 0 (Pure.pure a) (Pure.pure b) :=
  fun _ τ hστ => .ok h hστ (Nat.le_refl τ.points.size) rfl

theorem map {f : α → γ} {g : β → δ} (h : Alongside R d k m n) (hf : ∀ a b, R a b → S (f a) (g b)) :
    Alongside S d k (m >>= fun a => Pure.pure (f a)) (n >>= fun b => Pure.pure (g b)) :=
  h.bind fun a b hab => .pure (hf a b hab)

theorem reading {f : CompileState → Compile α} {g : CompileState → Compile β}
    (h : ∀ σ τ, σ.Beside 0 τ → Ends R k τ (f σ σ) (g τ τ)) :
    Alongside R 0 k (get >>= f) (get >>= g) := h

theorem last {f : α → γ} {g : β → δ} (h : Alongside R d k m n) :
    Alongside Any d k (m >>= fun a => Pure.pure (f a)) (n >>= fun b => Pure.pure (g b)) :=
  h.map fun _ _ _ => trivial

theorem readingScopes {f : CompileState → Compile α} {g : CompileState → Compile β}
    (h : ∀ σ τ, σ.scopes = τ.scopes → Alongside R 0 k (f σ) (g τ)) :
    Alongside R 0 k (get >>= f) (get >>= g) :=
  reading fun σ τ hστ => h σ τ hστ.scopes σ τ hστ

theorem throw (e : CompileError) : Alongside R d k (throw e) (throw e) :=
  fun σ τ _ => .failed e σ τ

theorem contradiction (i : Inconsistency) :
    Alongside R 0 k (Compile.contradiction i) (Compile.contradiction i) :=
  readingScopes fun _ _ hscopes => hscopes ▸ .throw _

theorem onScopes {f : Scopes → Except CompileError (α × Scopes)}
    (hf : ∀ s a s', f s = .ok (a, s') → s'.template = s.template) :
    Alongside Eq 0 0 (Compile.onScopes f) (Compile.onScopes f) := by
  refine reading fun σ τ hστ => ?_
  rw [hστ.scopes]
  cases hs : f τ.scopes with
  | error e => exact .failed e σ τ
  | ok r =>
    exact .ok rfl ⟨rfl, hστ.nextSite, hστ.calls, hστ.points, hστ.room⟩ (Nat.le_refl _) (hf _ _ _ hs)

theorem newSite : Alongside Eq 0 0 Compile.newSite Compile.newSite := by
  intro σ τ hστ
  change Ends Eq 0 τ (.ok σ.nextSite, _) (.ok τ.nextSite, _)
  rw [hστ.nextSite]
  exact .ok rfl ⟨hστ.scopes, rfl, hστ.calls, hστ.points, hστ.room⟩ (Nat.le_refl _) rfl

theorem here : Alongside Any 0 0 Compile.here Compile.here :=
  fun _ _ hστ => .ok trivial hστ (Nat.le_refl _) rfl

theorem place : Alongside Any 0 0 Compile.place Compile.place :=
  fun _ _ hστ => .ok trivial ⟨hστ.scopes, hστ.nextSite, hστ.calls, hστ.points, hστ.room⟩
    (Nat.le_refl _) rfl

theorem placePoint_apply (σ : CompileState) : Compile.placePoint σ =
    if σ.points.size < Scopes.limit then (.ok σ.points.size, σ.pointed)
    else (.error (.internal σ.scopes.template .tooManyPoints), σ) := by
  by_cases h : σ.points.size < Scopes.limit
  · rw [if_pos h]
    change (if σ.points.size < Scopes.limit then _ else _ : Compile Nat) σ = _
    rw [if_pos h]
    rfl
  · rw [if_neg h]
    change (if σ.points.size < Scopes.limit then _ else _ : Compile Nat) σ = _
    rw [if_neg h]
    rfl

theorem placePoint : Alongside Any 0 1 Compile.placePoint Compile.placePoint := by
  intro σ τ hστ
  rw [placePoint_apply, placePoint_apply]
  by_cases h : τ.points.size < Scopes.limit
  · rw [if_pos h, if_pos (hστ.lt_limit h)]
    exact .ok trivial (hστ.pointed h) (Array.size_push _).le rfl
  · rw [if_neg h]
    exact .full (by omega)

theorem writeText (out out' : Output) (s : String) :
    Alongside Any 0 (Need.text (s != "")).points (Compile.writeText out s)
      (Compile.writeText out' s) := by
  unfold Compile.writeText
  by_cases hs : s = ""
  · rw [if_pos hs, if_pos hs]
    exact (pure trivial).mono (Nat.zero_le _)
  · rw [if_neg hs, if_neg hs, show (Need.text (s != "")).points = 1 by simp [Need.text, hs]]
    exact placePoint.last

theorem enter : Alongside Eq 0 0 (Compile.onScopes fun s => .ok s.enter)
    (Compile.onScopes fun s => .ok s.enter) :=
  onScopes fun s a s' h => by
    cases h
    rfl

theorem exit (id : UInt32) : Alongside Eq 0 0 (Compile.onScopes fun s => (s.exit id).map ((), ·))
    (Compile.onScopes fun s => (s.exit id).map ((), ·)) :=
  onScopes fun s a s' h => by
    cases hx : s.exit id with
    | error e =>
      rw [hx] at h
      cases h
    | ok t =>
      rw [hx] at h
      cases h
      obtain ⟨top, rest, -, rfl⟩ := Scopes.exit_ok hx
      rfl

theorem inScope (h : Alongside Any 0 k m n) :
    Alongside Any 0 k (Compile.inScope m) (Compile.inScope n) := by
  unfold Compile.inScope
  refine Alongside.mono (enter.bind fun id id' hid => h.bind fun _ _ _ => ?_)
    (show 0 + (k + (0 + 0)) ≤ k by omega)
  subst hid
  exact (exit id).last

theorem declare (name : String) (type : VarType) (kind : SlotKind) :
    Alongside Eq 0 0 (Compile.onScopes (·.declare name type kind))
      (Compile.onScopes (·.declare name type kind)) :=
  onScopes fun _ _ _ h => (Scopes.declare_ok h).template

theorem temporary (label : String) :
    Alongside Eq 0 0 (Compile.temporary label) (Compile.temporary label) :=
  onScopes fun _ _ _ h => (Scopes.temporary_ok h).template

theorem var (v : VarRef) : Alongside Eq 0 0 v.compile v.compile := by
  refine readingScopes fun σ τ hscopes => ?_
  rw [hscopes]
  split
  · exact .pure rfl
  · split
    · exact .pure rfl
    · exact .contradiction _

mutual

theorem expr (e : Expr) : Alongside Eq 0 0 e.compile e.compile := by
  unfold Expr.compile
  split
  · exact .pure rfl
  · cases e with
    | literal l => exact .pure rfl
    | var v => exact var v
    | binary op l r =>
      exact (expr l).bind fun a b hab => (expr r).map fun c d hcd => by rw [hab, hcd]
    | unary op e => exact (expr e).map fun a b hab => by rw [hab]
    | cond c t e =>
      exact (expr c).bind fun a b hab => (expr t).bind fun c d hcd => (expr e).map fun e f hef => by
        rw [hab, hcd, hef]
    | list es => exact (exprs es).map fun a b hab => by rw [hab]
    | record fs => exact (fields fs).map fun a b hab => by rw [hab]
    | field b n s => exact (expr b).map fun a b hab => by rw [hab]
    | index b k =>
      exact (expr b).bind fun a b hab => (expr k).map fun c d hcd => by rw [hab, hcd]
    | builtin f es => exact (exprs es).map fun a b hab => by rw [hab]
    | template n => exact newSite.map fun a b hab => by rw [hab]
    | element i n t =>
      cases t with
      | none => exact .pure rfl
      | some t => exact newSite.map fun a b hab => by rw [hab]

theorem exprs (es : List Expr) : Alongside Eq 0 0 (Expr.compileAll es) (Expr.compileAll es) := by
  cases es with
  | nil => exact .pure rfl
  | cons e es =>
    exact (expr e).bind fun a b hab => (exprs es).map fun c d hcd => by rw [hab, hcd]

theorem fields (fs : List (String × Expr)) :
    Alongside Eq 0 0 (Expr.compileFields fs) (Expr.compileFields fs) := by
  match fs with
  | [] => exact .pure rfl
  | (k, e) :: fs =>
    exact (expr e).bind fun a b hab => (fields fs).map fun c d hcd => by rw [hab, hcd]

end

theorem paramsBase (d : CallData) :
    Alongside Eq 0 0 (Compile.paramsBase d) (Compile.paramsBase d) := by
  cases d with
  | expr e => exact (expr e).map fun a b hab => by rw [hab]
  | _ => exact .pure rfl

theorem callee (t : CallTarget) : Alongside Eq 0 0 (Compile.callee t) (Compile.callee t) := by
  match t with
  | .template n =>
    refine newSite.bind (l := 0) fun a b hab => ?_
    subst hab
    intro σ τ hστ
    exact .ok rfl ⟨hστ.scopes, hστ.nextSite, congrArg (·.push (a, n)) hστ.calls, hστ.points,
      hστ.room⟩ (Nat.le_refl _) rfl
  | .delegate n none allowEmpty => exact .pure rfl
  | .delegate n (some v) allowEmpty => exact (expr v).map fun a b hab => by rw [hab]

theorem declareIndex (index : Option String) :
    Alongside Eq 0 0 (Node.declareIndex index) (Node.declareIndex index) := by
  cases index with
  | none => exact .pure rfl
  | some name =>
    unfold Node.declareIndex
    simp only [map_eq_pure_bind]
    exact (declare name .int .bound).map fun a b hab => by rw [hab]

def pendingPoint (pending : String) : Nat := if pending = "" then 0 else 1

/-- The first compilation writes a text that the second has written before. -/
theorem writePending (out : Output) (pending : String) {x : List Op} :
    Alongside Any (pendingPoint pending) 0 (Compile.writeText out pending) (Pure.pure x) := by
  intro σ τ hστ
  unfold Compile.writeText
  unfold pendingPoint at hστ
  split at hστ
  · rw [if_pos ‹_›]
    exact .ok trivial hστ (Nat.le_refl _) rfl
  · have hpoints := hστ.points
    have hroom := hστ.room
    rw [if_neg ‹_›, bind_apply, placePoint_apply, if_pos (by omega)]
    exact .ok trivial hστ.pointed_first (Nat.le_refl _) rfl

/-- The second compilation writes a text that the first puts off. -/
theorem putOff {pending s : String} {out : Output} {f : List Op → Compile β}
    (h : ∀ x, Alongside R (pendingPoint (pending ++ s)) k m (f x)) :
    Alongside R (pendingPoint pending) ((Need.text (s != "")).points + k) m
      (Compile.writeText out s >>= f) := by
  intro σ τ hστ
  unfold Compile.writeText
  by_cases hs : s = ""
  · subst hs
    rw [String.append_empty] at h
    exact (h [] σ τ hστ).shift (Nat.le_add_right _ _) rfl
  · have hneed : (Need.text (s != "")).points = 1 := by simp [Need.text, hs]
    have hpending : pendingPoint (pending ++ s) ≤ pendingPoint pending + 1 := by
      unfold pendingPoint
      split <;> split <;> omega
    rw [hneed, if_neg hs, bind_apply, bind_apply, placePoint_apply]
    by_cases hlt : τ.points.size < Scopes.limit
    · rw [if_pos hlt]
      exact (h _ σ τ.pointed ((hστ.pointed_second hlt).relax hpending)).shift
        (Array.size_push _).le rfl
    · rw [if_neg hlt]
      exact .full (by omega)

end Compile.Alongside

open Compile Compile.Alongside

namespace Node

theorem compileBlock_text (out : Output) (s : String) (ns : List Node) :
    compileBlock false out "" (text s :: ns) = Compile.writeText out s >>= fun ops =>
      compileBlock false out "" ns >>= fun rest => Pure.pure (ops ++ rest) := by
  rw [compileBlock_cons out (fun h => by cases h), compile_text]
  simp [Compile.writeText]

theorem loop_alongside {out out' : Output} {var : String} {index : Option String} {items items' : Code}
    {b : List Node} {k : Nat}
    (hb : Alongside Any 0 k (compileBlock true out "" b) (compileBlock false out' "" b)) :
    Alongside Any 0 (1 + k) (compileLoop true out var index items b)
      (compileLoop false out' var index items' b) := by
  unfold compileLoop
  refine Alongside.mono (.inScope ((Alongside.temporary "loop list").bind fun _ _ _ =>
    (Alongside.temporary "loop cursor").bind fun _ _ _ => placePoint.bind fun _ _ _ =>
      (declare var .unknown .bound).bind fun _ _ _ => (Alongside.declareIndex index).bind fun _ _ _ =>
        Alongside.here.bind fun _ _ _ => Alongside.place.bind fun _ _ _ =>
          hb.inScope.bind fun _ _ _ => Alongside.place.bind fun _ _ _ => Alongside.here.last)) ?_
  omega

mutual

theorem alongside (out out' : Output) : (n : Node) →
    Alongside Any 0 (n.need false).points (n.compile true out) (n.compile false out')
  | text s => by
    rw [compile_text, compile_text, need.eq_def]
    exact writeText out out' s
  | print e => by
    rw [compile_print, compile_print, need.eq_def]
    exact (expr e).bind fun _ _ _ => placePoint.last
  | branch bs o => by
    rw [compile_branch, compile_branch, need.eq_def]
    exact branches_alongside out out' (else_alongside out out' o) bs
  | switch e cs o => by
    rw [compile_switch, compile_switch, need.eq_def]
    have hcases := fun subject subject' =>
      cases_alongside out out' subject subject' (else_alongside out out' o) cs
    refine Alongside.mono (.inScope ((expr e).bind fun _ _ _ =>
      (Alongside.temporary "switch subject").bind fun subject subject' _ => placePoint.bind fun _ _ _ =>
        (hcases subject subject').last)) ?_
    simp only [Need.add_points, Need.slot_points, Need.point_points]
    cases o <;> dsimp only <;> omega
  | each var index items b ifEmpty => by
    rw [compile_each, compile_each, need.eq_def]
    have hbody := block_alongside out out' "" b
    have hneed : ∀ k : Need, 1 + (blockNeed false false b).points + k.points ≤
        (Need.slot + Need.slot + Need.slot + Need.point + (if index.isSome then Need.slot else 0) +
          blockNeed false false b + k).points := by
      intro k
      simp only [Need.add_points, Need.slot_points, Need.point_points]
      omega
    cases ifEmpty with
    | none =>
      refine Alongside.mono ((expr items).bind fun _ _ _ => (loop_alongside hbody).last) ?_
      exact (Nat.zero_add _).trans_le (hneed 0)
    | some b' =>
      refine Alongside.mono ((expr items).bind fun _ _ _ => (loop_alongside hbody).bind fun _ _ _ =>
        Alongside.place.bind fun _ _ _ => Alongside.here.bind fun _ _ _ =>
          (block_alongside out out' "" b').inScope.bind fun _ _ _ => Alongside.here.last) ?_
      refine Nat.le_trans ?_ (hneed (blockNeed false false b'))
      omega
  | bind name e => by
    rw [compile_bind, compile_bind, need.eq_def]
    exact (expr e).bind fun _ _ _ => (declare name .unknown .bound).bind fun _ _ _ => placePoint.last
  | capture name kind b => by
    rw [compile_capture, compile_capture, need.eq_def]
    refine Alongside.mono ((Alongside.temporary "let content").bind fun buffer buffer' _ =>
      Alongside.place.bind fun _ _ _ =>
        (block_alongside (.buffer buffer) (.buffer buffer') "" b).inScope.bind fun _ _ _ =>
          (declare name (.content kind) .bound).bind fun _ _ _ => Alongside.place.last) ?_
    simp only [Need.add_points, Need.slot_points]
    omega
  | call target data as => by
    rw [compile_call, compile_call, need.eq_def]
    refine Alongside.mono (.inScope ((args_alongside as).bind fun _ _ _ =>
      (Alongside.paramsBase data).bind fun _ _ _ => (Alongside.callee target).bind fun _ _ _ =>
        placePoint.last)) ?_
    simp only [Need.add_points, Need.point_points]
    omega
  | tag name children selfClosing => by
    rw [compile_tag, compile_tag, need.eq_def]
    refine Alongside.mono ((writeText out out' _).bind fun _ _ _ =>
      (children_alongside out out' children).bind fun _ _ _ => (writeText out out' _).last) ?_
    simp only [Need.add_points, Need.point_points, Need.text]
    split <;> split <;> simp <;> omega
  | key e => by
    rw [compile_key, compile_key]
    exact .contradiction _

theorem else_alongside (out out' : Output) : (o : Option (List Node)) →
    Alongside Any 0 (match o with
      | none => (0 : Need)
      | some b => blockNeed false false b).points (compileOptional true out o)
      (compileOptional false out' o)
  | none => .pure trivial
  | some b => (block_alongside out out' "" b).inScope

theorem block_alongside (out out' : Output) (pending : String) : (ns : List Node) →
    Alongside Any (pendingPoint pending) (blockNeed false false ns).points
      (compileBlock true out pending ns) (compileBlock false out' "" ns)
  | [] => writePending out pending
  | n :: ns => by
    by_cases hn : ∃ s, n = text s
    · obtain ⟨s, rfl⟩ := hn
      rw [compileBlock_join, compileBlock_text, blockNeed.eq_def]
      -- The second writes the text at once; the first keeps it, and has a point less until it is written.
      have hrest := block_alongside out out' (pending ++ s) ns
      refine (putOff (k := (blockNeed false false ns).points) fun ops => ?_).mono ?_
      · simpa only [id, bind_pure] using hrest.map (S := Any) (f := id) (g := (ops ++ ·))
          fun _ _ _ => trivial
      · simp [need, Need.text]
    · rw [compileBlock_cons out (fun _ s h => hn ⟨s, h⟩),
        compileBlock_cons out' (fun h => by cases h), blockNeed.eq_def]
      have hrest := block_alongside out out' "" ns
      refine Alongside.mono ((writePending out pending).bind fun _ _ _ =>
        (n.alongside out out').bind fun _ _ _ => hrest.last) ?_
      simp

theorem branches_alongside (out out' : Output) {o o' : Compile (List Op)} {k : Nat}
    (ho : Alongside Any 0 k o o') : (bs : List (Expr × List Node)) →
    Alongside Any 0 ((branchesNeed false bs).points + k) (compileBranches true out bs o)
      (compileBranches false out' bs o')
  | [] => ho.mono (Nat.le_add_left _ _)
  | (e, b) :: bs => by
    rw [compileBranches_cons, compileBranches_cons, branchesNeed.eq_def]
    refine Alongside.mono ((expr e).bind fun _ _ _ => placePoint.bind fun _ _ _ =>
      (block_alongside out out' "" b).inScope.bind fun _ _ _ => Alongside.place.bind fun _ _ _ =>
        Alongside.here.bind fun _ _ _ => (branches_alongside out out' ho bs).bind fun _ _ _ =>
          Alongside.here.last) ?_
    simp only [Need.add_points, Need.point_points]
    omega

theorem cases_alongside (out out' : Output) (subject subject' : Nat) {o o' : Compile (List Op)}
    {k : Nat} (ho : Alongside Any 0 k o o') : (cs : List (List Expr × List Node)) →
    Alongside Any 0 ((casesNeed false cs).points + k) (compileCases true out subject cs o)
      (compileCases false out' subject' cs o')
  | [] => ho.mono (Nat.le_add_left _ _)
  | (es, b) :: cs => by
    rw [compileCases_cons, compileCases_cons, casesNeed.eq_def]
    refine Alongside.mono ((exprs es).bind fun _ _ _ => placePoint.bind fun _ _ _ =>
      (block_alongside out out' "" b).inScope.bind fun _ _ _ => Alongside.place.bind fun _ _ _ =>
        Alongside.here.bind fun _ _ _ =>
          (cases_alongside out out' subject subject' ho cs).bind fun _ _ _ =>
            Alongside.here.last) ?_
    simp only [Need.add_points, Need.point_points]
    omega

theorem args_alongside : (as : List Arg) → Alongside Any 0 (argsNeed false as).points
    (compileArgs true as) (compileArgs false as)
  | [] => .pure trivial
  | .value name e :: as => by
    rw [compileArgs_value, compileArgs_value, argsNeed.eq_def]
    refine Alongside.mono ((expr e).bind fun _ _ _ => (args_alongside as).last) ?_
    simp
  | .content name kind b :: as => by
    rw [compileArgs_content, compileArgs_content, argsNeed.eq_def]
    refine Alongside.mono ((Alongside.temporary "call param").bind fun buffer buffer' _ =>
      Alongside.place.bind fun _ _ _ =>
        (block_alongside (.buffer buffer) (.buffer buffer') "" b).inScope.bind fun _ _ _ =>
          Alongside.place.bind fun _ _ _ => (args_alongside as).last) ?_
    simp only [Need.add_points, Need.slot_points]
    omega

theorem children_alongside (out out' : Output) : (ns : List Node) →
    Alongside Any 0 (childrenNeed false ns).points (compileChildren true out ns)
      (compileChildren false out' ns)
  | [] => .pure trivial
  | n :: ns => by
    rw [childrenNeed.eq_def]
    by_cases hn : ∃ e, n = key e
    · obtain ⟨e, rfl⟩ := hn
      rw [compileChildren_key, compileChildren_key]
      refine ((expr e).bind fun _ _ _ => children_alongside out out' ns).mono ?_
      simp
    · rw [compileChildren_cons _ _ fun e h => hn ⟨e, h⟩, compileChildren_cons _ _ fun e h => hn ⟨e, h⟩]
      exact (n.alongside out out').bind fun _ _ _ =>
        (children_alongside out out' ns).last

end

end Node

structure Procedure.Shortens (p q : Procedure) : Prop where
  layout : p.layout = q.layout
  params : p.params = q.params
  state : p.state = q.state
  points : p.points.size ≤ q.points.size

namespace Compile

theorem constant_alongside (owner : String) (e : Expr) :
    Alongside Eq 0 0 (constant owner e) (constant owner e) := by
  refine readingScopes fun σ τ hscopes => ?_
  rw [hscopes]
  split
  · exact .pure rfl
  · exact .throw _

theorem param_alongside (p : Param) : Alongside Eq 0 0 (param p) (param p) := by
  unfold param
  cases p.default with
  | none => exact (Alongside.declare _ _ _).map fun a b hab => by rw [hab]
  | some e =>
    simp only [map_eq_pure_bind, bind_assoc, pure_bind]
    exact (constant_alongside _ e).bind fun a b hab =>
      (Alongside.declare _ _ _).map fun c d hcd => by rw [hab, hcd]

theorem params_alongside (ps : List Param) : Alongside Eq 0 0 (params ps) (params ps) := by
  induction ps with
  | nil => exact .pure rfl
  | cons p ps ih =>
    exact (param_alongside p).bind fun a b hab => ih.map fun c d hcd => by rw [hab, hcd]

theorem stateVar_alongside (v : StateVar) : Alongside Eq 0 0 (stateVar v) (stateVar v) :=
  (constant_alongside _ _).bind fun a b hab =>
    (Alongside.declare _ _ _).map fun c d hcd => by rw [hab, hcd]

theorem stateVars_alongside (vs : List StateVar) :
    Alongside Eq 0 0 (stateVars vs) (stateVars vs) := by
  induction vs with
  | nil => exact .pure rfl
  | cons v vs ih =>
    exact (stateVar_alongside v).bind fun a b hab => ih.map fun c d hcd => by rw [hab, hcd]

theorem finish_alongside (header : UInt32) : Alongside Any 0 0 (finish header) (finish header) := by
  refine (Alongside.exit header).bind (l := 0) fun _ _ _ => readingScopes fun σ τ hscopes => ?_
  rw [hscopes]
  split
  · exact .contradiction _
  · exact .pure trivial

theorem procedure_alongside (t : Template) :
    Alongside Procedure.Shortens 0 (t.need false).points (procedure true t) (procedure false t) := by
  unfold procedure
  refine Alongside.mono (enter.bind fun header _ hheader => (params_alongside t.params).bind
    fun ps _ hps => (stateVars_alongside t.state).bind fun vs _ hvs =>
      (Node.block_alongside .sink .sink "" t.body).bind (l := 0) fun ops ops' _ => ?_) ?_
  · subst hheader hps hvs
    refine (finish_alongside header).bind (l := 0) fun _ _ _ σ τ hστ => ?_
    exact .ok ⟨congrArg Scopes.slots hστ.scopes, rfl, rfl, hστ.points⟩ hστ (Nat.le_refl _) rfl
  · simp [Template.need]

end Compile

structure CompiledTemplate.Shortens (c d : CompiledTemplate) : Prop where
  name : c.name = d.name
  isPrivate : c.isPrivate = d.isPrivate
  kind : c.kind = d.kind
  calls : c.calls = d.calls
  procedure : c.procedure.Shortens d.procedure

structure CompiledUnit.Shortens (u v : CompiledUnit) : Prop where
  templates : List.Forall₂ CompiledTemplate.Shortens u.templates v.templates
  metadata : u.metadata = v.metadata
  tables : u.tables = v.tables

/-- Holds of what compilation with joined texts and without comes to: both have results, or both fail in
the same way, unless the second has an error of its own. -/
inductive Compile.Outcomes (R : α → β → Prop) (own : CompileError → Prop) :
    Except CompileError α → Except CompileError β → Prop
  | ok {a : α} {b : β} (related : R a b) : Outcomes R own (.ok a) (.ok b)
  | failed (e : CompileError) : Outcomes R own (.error e) (.error e)
  | own {x : Except CompileError α} {e : CompileError} (h : own e) : Outcomes R own x (.error e)

namespace Compile.Outcomes

variable {R : α → β → Prop} {S : γ → δ → Prop} {own own' : CompileError → Prop}
  {x : Except CompileError α} {y : Except CompileError β}

theorem bind {f : α → Except CompileError γ} {g : β → Except CompileError δ} (h : Outcomes R own x y)
    (hown : ∀ e, own e → own' e) (hf : ∀ a b, R a b → Outcomes S own' (f a) (g b)) :
    Outcomes S own' (x >>= f) (y >>= g) := by
  cases h with
  | ok hr => exact hf _ _ hr
  | failed e => exact .failed e
  | own h => exact .own (hown _ h)

end Compile.Outcomes

/-- Holds of the error of a template that has too many places to pause at, each text being one. -/
def Template.Overflows (t : Template) (e : CompileError) : Prop :=
  e = .internal t.name .tooManyPoints ∧ Scopes.limit < (t.need false).points

/-- A template is compiled alike with joined texts and without. -/
theorem Template.compile_outcomes (t : Template) :
    Outcomes CompiledTemplate.Shortens t.Overflows (t.compile true) (t.compile false) := by
  have hends : Ends Procedure.Shortens _ _ ((procedure true t).run (.of (.empty t.name)))
      ((procedure false t).run (.of (.empty t.name))) :=
    procedure_alongside t _ _ ⟨rfl, rfl, rfl, Nat.le_refl 0, Nat.zero_le _⟩
  rw [Template.compile_eq, Template.compile_eq]
  generalize (procedure true t).run (.of (.empty t.name)) = x,
    (procedure false t).run (.of (.empty t.name)) = y at hends
  cases hends with
  | ok hp hbeside => exact .ok ⟨rfl, rfl, rfl, congrArg Array.toList hbeside.calls, hp⟩
  | failed e => exact .failed e
  | full hneed => exact .own ⟨rfl, Nat.zero_add (t.need false).points ▸ hneed⟩

namespace CompiledUnit

theorem compileAll_outcomes (seen : List String) (sources : List (TemplateFile × Template)) :
    Outcomes (List.Forall₂ fun c d : CompiledTemplate × Metadata => c.1.Shortens d.1 ∧ c.2 = d.2)
      (fun e => ∃ s ∈ sources, s.2.Overflows e) (compileAll true seen sources)
      (compileAll false seen sources) := by
  induction sources generalizing seen with
  | nil => exact .ok .nil
  | cons s sources ih =>
    rw [compileAll, compileAll]
    split
    · exact .failed _
    · refine (Template.compile_outcomes s.2).bind (fun e h => ⟨s, List.mem_cons_self, h⟩)
        fun c d hcd => (ih _).bind ?_ fun cs ds h => .ok (.cons ⟨hcd, rfl⟩ h)
      rintro e ⟨s', hs', h⟩
      exact ⟨s', List.mem_cons_of_mem _ hs', h⟩

/-- Units are compiled alike with joined texts and without. -/
theorem compile_outcomes (files : List TemplateFile) (tables : Table String ElementTable) :
    Outcomes Shortens (fun e => ∃ t ∈ TemplateFile.declared files, t.Overflows e)
      (compile { joins := true } files tables) (compile { joins := false } files tables) := by
  refine (compileAll_outcomes [] _).bind ?_ fun cs ds h => .ok ⟨?_, ?_, rfl⟩
  · rintro e ⟨⟨f, t⟩, hs, h⟩
    obtain ⟨f', hf, hs⟩ := List.mem_flatMap.1 hs
    obtain ⟨t', ht, hs⟩ := List.mem_map.1 hs
    cases hs
    exact ⟨t, List.mem_flatMap.2 ⟨f, hf, ht⟩, h⟩
  · exact List.forall₂_map_left_iff.2 (List.forall₂_map_right_iff.2 (h.imp fun _ _ h => h.1))
  · induction h with
    | nil => rfl
    | cons hcd _ ih => exact congrArg₂ List.cons hcd.2 ih

end CompiledUnit

end ResumableTemplates
