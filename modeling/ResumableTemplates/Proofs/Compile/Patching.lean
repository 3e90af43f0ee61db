import ResumableTemplates.Proofs.Compile.Equations

/-! A builder that aims its jumps later emits the ops that are known with their targets from the start.
Main statement: a template compiles to the same, or fails with the same error, either way. -/
namespace ResumableTemplates

open Compile

def Compile.Stays (c : Compile α) : Prop := ∀ σ a τ, c.Yields σ a τ → τ.position = σ.position

namespace Compile.Stays

theorem pure (a : α) : (Pure.pure a : Compile α).Stays := by
  intro σ b τ h
  obtain ⟨-, rfl⟩ := yields_pure.1 h
  rfl

theorem bind {c : Compile α} {f : α → Compile β} (hc : c.Stays) (hf : ∀ a, (f a).Stays) :
    (c >>= f).Stays := by
  intro σ b τ h
  obtain ⟨a, υ, ha, hb⟩ := yields_bind.1 h
  exact (hf a υ b τ hb).trans (hc σ a υ ha)

theorem scopes (f : Scopes → Except CompileError (α × Scopes)) : (onScopes f).Stays := by
  intro σ a τ h
  obtain ⟨s, -, rfl⟩ := yields_onScopes.1 h
  rfl

theorem quiet {c : Compile α} (hc : c.IsQuiet) : c.Stays := fun _ _ _ h => (hc _ _ _ h).position

theorem constant (owner : String) (e : Expr) : (Compile.constant owner e).Stays := by
  intro σ v τ h
  rw [Compile.constant, yields_bind] at h
  obtain ⟨_, _, hget, h⟩ := h
  obtain ⟨rfl, rfl⟩ := yields_get.1 hget
  split at h
  · obtain ⟨-, rfl⟩ := yields_pure.1 h
    rfl
  · exact (not_yields_throw h).elim

theorem param (p : Param) : (Compile.param p).Stays := by
  cases hd : p.default with
  | none =>
    rw [Compile.param, hd]
    exact .bind (.pure _) fun _ => .bind (.scopes _) fun _ => .pure _
  | some e =>
    rw [Compile.param, hd]
    exact .bind (.bind (.constant _ _) fun _ => .pure _) fun _ => .bind (.scopes _) fun _ => .pure _

theorem params (ps : List Param) : (Compile.params ps).Stays := by
  induction ps with
  | nil => exact .pure _
  | cons p ps ih => exact .bind (.param p) fun _ => .bind ih fun _ => .pure _

theorem stateVars (vs : List StateVar) : (Compile.stateVars vs).Stays := by
  induction vs with
  | nil => exact .pure _
  | cons v vs ih =>
    have hv : (Compile.stateVar v).Stays :=
      .bind (.constant _ _) fun _ => .bind (.scopes _) fun _ => .pure _
    exact .bind hv fun _ => .bind ih fun _ => .pure _

theorem finish (header : UInt32) : (Compile.finish header).Stays := by
  refine .bind (.scopes _) fun _ σ _ τ h => ?_
  rw [yields_bind] at h
  obtain ⟨_, _, hget, h⟩ := h
  obtain ⟨rfl, rfl⟩ := yields_get.1 hget
  split at h
  · exact (not_yields_contradiction h).elim
  · rw [(yields_pure.1 h).2]

end Compile.Stays

theorem set_concat (before : List Op) (op op' : Op) (after : List Op) :
    (before ++ op :: after).set before.length op' = before ++ op' :: after := by
  simp

theorem Build.bind_apply (m : Build α) (k : α → Build β) (b : Builder) :
    (m >>= k) b = match m b with
      | (.ok x, b') => k x b'
      | (.error e, b') => (.error e, b') := by
  have h : (m >>= k) b = ExceptT.bindCont k (m b).1 (m b).2 := rfl
  rw [h]
  rcases m b with ⟨_ | _, b'⟩ <;> rfl

/-- Holds if a builder fails as the compiler does, or comes to the same state with related results. The
relation also has the ops by then. -/
def Build.Mirrors (m : Build α) (c : Compile β) (b : Builder) (R : α → β → List Op → Prop) : Prop :=
  match c b.state with
  | (.error e, _) => (m b).1 = .error e
  | (.ok y, σ) => ∃ x b', m b = (.ok x, b') ∧ b'.state = σ ∧ R x y b'.ops.toList

/-- Holds of a builder that emits what the compiler gives. -/
def Build.Writes (m : Build Unit) (c : Compile (List Op)) : Prop :=
  ∀ b, m.Mirrors c b fun _ ops all => all = b.ops.toList ++ ops

namespace Build.Mirrors

variable {m : Build α} {c : Compile β} {b : Builder} {R : α → β → List Op → Prop}
  {S : γ → δ → List Op → Prop} {op : Op} {n target : Nat}

theorem mono {R' : α → β → List Op → Prop} (h : m.Mirrors c b R)
    (hR : ∀ x y all, R x y all → R' x y all) : m.Mirrors c b R' := by
  unfold Mirrors at h ⊢
  rcases hc : c b.state with ⟨e | y, σ⟩
  · simpa only [hc] using h
  · simp only [hc] at h ⊢
    obtain ⟨x, b', hm, hstate, hxy⟩ := h
    exact ⟨x, b', hm, hstate, hR _ _ _ hxy⟩

theorem pure {x : α} {y : β} (h : R x y b.ops.toList) : Mirrors (pure x) (pure y) b R :=
  ⟨x, b, rfl, rfl, h⟩

theorem bind {k : α → Build γ} {d : β → Compile δ} (h : m.Mirrors c b R)
    (hk : ∀ x y b', R x y b'.ops.toList → (k x).Mirrors (d y) b' S) :
    (m >>= k).Mirrors (c >>= d) b S := by
  unfold Mirrors at h ⊢
  rw [Build.bind_apply, Compile.bind_apply]
  rcases hc : c b.state with ⟨e | y, σ⟩
  · simp only [hc] at h ⊢
    rcases hm : m b with ⟨e' | x, b'⟩
    · rw [hm] at h
      cases h
      rfl
    · rw [hm] at h
      cases h
  · simp only [hc] at h ⊢
    obtain ⟨x, b', hm, rfl, hxy⟩ := h
    rw [hm]
    exact hk x y b' hxy

theorem andThen {S : α → δ → List Op → Prop} {d : β → Compile δ} (h : m.Mirrors c b R)
    (hd : ∀ x y b', R x y b'.ops.toList → Mirrors (Pure.pure x) (d y) b' S) :
    m.Mirrors (c >>= d) b S := by
  rw [← bind_pure m]
  exact h.bind hd

theorem lift {c : Compile α} (hc : c.Stays) :
    (Build.lift c).Mirrors c b fun x y all => x = y ∧ all = b.ops.toList := by
  unfold Mirrors
  rcases hrun : c b.state with ⟨e | y, σ⟩
  · simp only [Build.lift, hrun]
  · have hposition : σ.position = b.ops.size := hc _ y σ hrun
    refine ⟨y, { b with
      scopes := σ.scopes, points := σ.points, nextSite := σ.nextSite, calls := σ.calls }, ?_, ?_, rfl, rfl⟩
    · simp only [Build.lift, hrun]
    · rw [Builder.state, ← hposition]

theorem declare (name : String) (type : VarType) :
    (Build.lift (Compile.declare name type)).Mirrors (Compile.declare name type) b fun x y all =>
      x = y ∧ all = b.ops.toList := lift (.scopes _)

theorem temporary (label : String) :
    (Build.lift (Compile.temporary label)).Mirrors (Compile.temporary label) b fun x y all =>
      x = y ∧ all = b.ops.toList := lift (.scopes _)

theorem emit (op : Op) : (Build.emit op).Mirrors place b fun x _ all =>
    x = b.ops.size ∧ all = b.ops.toList ++ [op] := by
  refine ⟨_, _, rfl, ?_, rfl, Array.toList_push⟩
  simp only [Builder.state, Array.size_push]

theorem emitPoint (op : Nat → Op) : (Build.emitPoint op).Mirrors placePoint b fun x y all =>
    x = b.ops.size ∧ all = b.ops.toList ++ [op y] := by
  by_cases hlt : b.points.size < Scopes.limit
  · have hright : placePoint b.state = (.ok b.points.size, { b.state with
        position := b.ops.size + 1
        points := b.points.push ⟨b.ops.size, b.scopes.live⟩ }) := by
      change (if b.points.size < Scopes.limit then _ else _ : Compile Nat) b.state = _
      rw [if_pos hlt]
      rfl
    have hleft : Build.emitPoint op b = (.ok b.ops.size, { b with
        ops := b.ops.push (op b.points.size)
        points := b.points.push ⟨b.ops.size, b.scopes.live⟩ }) := by
      change (if b.points.size < Scopes.limit then _ else _ : Build Nat) b = _
      rw [if_pos hlt]
      rfl
    unfold Mirrors
    rw [hright]
    refine ⟨_, _, hleft, ?_, rfl, Array.toList_push⟩
    simp only [Builder.state, Array.size_push]
  · have hright : placePoint b.state =
        (.error (.internal b.scopes.template .tooManyPoints), b.state) := by
      change (if b.points.size < Scopes.limit then _ else _ : Compile Nat) b.state = _
      rw [if_neg hlt]
      rfl
    unfold Mirrors
    rw [hright]
    change ((if b.points.size < Scopes.limit then _ else _ : Build Nat) b).1 = _
    rw [if_neg hlt]
    rfl

theorem emitText (out : Output) (s : String) :
    (Build.emitText out s).Mirrors (writeText out s) b fun _ ops all => all = b.ops.toList ++ ops := by
  unfold Build.emitText writeText
  by_cases hs : s = ""
  · simp only [hs, ne_eq, not_true_eq_false, if_false, if_true]
    exact .pure (List.append_nil _).symm
  · simp only [hs, ne_eq, not_false_eq_true, if_false, if_true]
    exact (emitPoint _).bind fun _ _ _ h => .pure h.2

theorem here_left {k : Nat → Build α} (h : (k b.ops.size).Mirrors c b R) :
    (Build.here >>= k).Mirrors c b R := h

theorem here_right {d : Nat → Compile β} (h : m.Mirrors (d b.ops.size) b R) :
    m.Mirrors (Compile.here >>= d) b R := h

theorem inScope (h : ∀ b' : Builder, b'.ops = b.ops → m.Mirrors c b' R) :
    (Build.inScope m).Mirrors (Compile.inScope c) b R := by
  refine (lift (.scopes _)).bind fun id id' b' ⟨hid, hops⟩ => ?_
  refine (h b' (Array.toList_inj.1 hops)).bind fun x y b'' hxy => ?_
  cases hid
  exact (lift (.scopes _)).bind fun _ _ _ ⟨_, hall⟩ => .pure (hall ▸ hxy)

theorem patch {k : Unit → Build α} (hop : (b.ops.toList[n]?).bind (·.aimed? target) = some op)
    (h : ∀ b' : Builder, b'.ops.toList = b.ops.toList.set n op → (k ()).Mirrors c b' R) :
    (Build.patch n target >>= k).Mirrors c b R := by
  let b' : Builder := { b with ops := b.ops.setIfInBounds n op }
  have hpatch : Build.patch n target b = (.ok (), b') := by
    rw [Array.getElem?_toList] at hop
    rw [Build.patch, bind_apply]
    split
    · rename_i h
      cases h
      simp only [hop]
      rfl
    · rename_i h
      cases h
  have hleft : (Build.patch n target >>= k) b = k () b' := by rw [bind_apply, hpatch]
  have hstate : b'.state = b.state := by simp [b', Builder.state]
  have hk := h b' (by simp [b'])
  unfold Mirrors at hk ⊢
  rw [hleft]
  rwa [hstate] at hk

theorem patchAt {k : Unit → Build α} {before after : List Op} {op' : Op}
    (hops : b.ops.toList = before ++ op :: after) (hn : n = before.length)
    (hop : op.aimed? target = some op')
    (h : ∀ b' : Builder, b'.ops.toList = before ++ op' :: after → (k ()).Mirrors c b' R) :
    (Build.patch n target >>= k).Mirrors c b R := by
  have hop' : (b.ops.toList[n]?).bind (·.aimed? target) = some op' := by
    rw [hops, hn, List.getElem?_append_right (Nat.le_refl _), Nat.sub_self]
    exact hop
  exact patch hop' fun b' hb' => h b' (by rw [hb', hops, hn, set_concat])

end Build.Mirrors

def aimAll (target : Nat) (ns : List Nat) (ops : List Op) : List Op :=
  ns.foldl (fun ops n => ops.set n (.jump target)) ops

def Jumps (ops : List Op) (ns : List Nat) : Prop := ∀ n ∈ ns, ∃ t, ops[n]? = some (.jump t)

namespace Jumps

variable {ops : List Op} {ns : List Nat} {n : Nat}

theorem lt_length (h : Jumps ops ns) (hn : n ∈ ns) : n < ops.length := by
  obtain ⟨t, ht⟩ := h n hn
  exact (List.getElem?_eq_some_iff.1 ht).1

theorem append (h : Jumps ops ns) (rest : List Op) : Jumps (ops ++ rest) ns := by
  intro n hn
  rw [List.getElem?_append_left (h.lt_length hn)]
  exact h n hn

theorem set (h : Jumps ops ns) (n target : Nat) : Jumps (ops.set n (.jump target)) ns := by
  intro m hm
  by_cases hnm : n = m
  · exact ⟨target, by rw [hnm, List.getElem?_set_self (h.lt_length hm)]⟩
  · rw [List.getElem?_set_ne hnm]
    exact h m hm

theorem aimAll_append (h : Jumps ops ns) (target : Nat) (rest : List Op) :
    aimAll target ns (ops ++ rest) = aimAll target ns ops ++ rest := by
  induction ns generalizing ops with
  | nil => rfl
  | cons n ns ih =>
    have hset := List.set_append_left (t := rest) n (.jump target) (h.lt_length List.mem_cons_self)
    rw [aimAll, List.foldl_cons, hset]
    exact ih fun m hm => h.set n target m (List.mem_cons_of_mem n hm)

end Jumps

@[simp] theorem length_aimAll (target : Nat) (ns : List Nat) (ops : List Op) :
    (aimAll target ns ops).length = ops.length := by
  induction ns generalizing ops with
  | nil => rfl
  | cons n ns ih => exact (ih _).trans List.length_set

theorem aimAll_concat (target : Nat) (ns : List Nat) (n : Nat) (ops : List Op) :
    aimAll target (ns ++ [n]) ops = (aimAll target ns ops).set n (.jump target) :=
  List.foldl_append

namespace Build.Mirrors

variable {b : Builder} {c : Compile (List Op)}

theorem patchAll (target : Nat) {ns : List Nat} (h : Jumps b.ops.toList ns) (y : β) :
    (Build.patchAll target ns).Mirrors (Pure.pure y) b fun _ y' all =>
      y' = y ∧ all = aimAll target ns b.ops.toList := by
  induction ns generalizing b with
  | nil => exact .pure ⟨rfl, rfl⟩
  | cons n ns ih =>
    obtain ⟨t, ht⟩ := h n List.mem_cons_self
    have hop : (b.ops.toList[n]?).bind (·.aimed? target) = some (.jump target) := by
      rw [ht]
      rfl
    -- The other positions still hold jumps once one is aimed.
    refine .patch hop fun b' hb' => ?_
    refine (ih (b := b') ?_).mono fun _ _ all hall => ?_
    · exact hb' ▸ fun m hm => h.set n target m (List.mem_cons_of_mem n hm)
    · rwa [hb'] at hall

end Build.Mirrors

def Build.closing (other : Build Unit) (before ends : List Nat) : Build Unit := do
  other
  patchAll (← here) (before ++ ends)

def Closes (b : Builder) (ends : List Nat) (ops all : List Op) : Prop :=
  all = aimAll all.length ends b.ops.toList ++ ops

section arms

variable {γ : Type} {test : Compile γ} {body other : Build Unit}
  {ops otherwise rest : Compile (List Op)} {others : Build (List Nat)} {b : Builder} {ends : List Nat}

theorem Build.Writes.closing (hother : other.Writes otherwise) (hends : Jumps b.ops.toList ends) :
    (Build.closing other ends []).Mirrors otherwise b fun _ => Closes b ends := by
  unfold Build.closing
  rw [List.append_nil, ← bind_pure otherwise]
  refine (hother b).bind fun _ xs b' hb' => .here_left ?_
  have hall := hb' ▸ hends.aimAll_append b'.ops.size xs
  refine (Build.Mirrors.patchAll _ (hb' ▸ hends.append xs) xs).mono fun _ _ all ⟨hy, hall'⟩ => ?_
  have hsize : all.length = b'.ops.size := by rw [hall', length_aimAll, Array.length_toList]
  rw [Closes, hy, hsize, ← hall, hall']

theorem Build.Writes.inScope (h : body.Writes ops) :
    (Build.inScope body).Writes (Compile.inScope ops) := fun _ =>
  .inScope fun b' hb' => (h b').mono fun _ _ _ hall => hb' ▸ hall

/-- A test with its block, before others: its jump to the end is aimed with theirs. -/
theorem Build.Writes.arm (op : γ → Nat → Nat → Op) (htest : test.IsQuiet)
    (hop : ∀ v p t t', (op v p t).aimed? t' = some (op v p t')) (hbody : body.Writes ops)
    (hothers : ∀ (b : Builder) ends, Jumps b.ops.toList ends →
      (others >>= Build.closing other ends).Mirrors rest b fun _ => Closes b ends)
    (hends : Jumps b.ops.toList ends) :
    Build.Mirrors ((do
      let v ← test
      let start ← emitPoint (op v · 0)
      Build.inScope body
      let stop ← emit (.jump 0)
      patch start (← Build.here)
      return stop :: (← others)) >>= Build.closing other ends) (do
      let v ← test
      let point ← placePoint
      let ops ← Compile.inScope ops
      place
      let next ← Compile.here
      let rest ← rest
      return op v point next :: (ops ++ .jump (← Compile.here) :: rest)) b
      fun _ => Closes b ends := by
  simp only [bind_assoc]
  refine (Build.Mirrors.lift (.quiet htest)).bind fun v v' b₁ ⟨hv, h₁⟩ => ?_
  cases hv
  refine (Build.Mirrors.emitPoint _).bind fun start point b₂ ⟨hstart, h₂⟩ => ?_
  refine (hbody.inScope b₂).bind fun _ xs b₃ h₃ => ?_
  refine (Build.Mirrors.emit _).bind fun stop _ b₄ ⟨hstop, h₄⟩ => .here_left (.here_right ?_)
  rw [h₃, h₂, h₁] at h₄
  have hstart' : start = b.ops.toList.length := by rw [hstart, ← Array.length_toList, h₁]
  have hstop' : stop = (b.ops.toList ++ op v point b₄.ops.size :: xs).length := by
    rw [hstop, ← Array.length_toList, h₃, h₂, h₁]
    simp
  have hsplit : b₄.ops.toList = b.ops.toList ++ op v point 0 :: (xs ++ [.jump 0]) := by
    rw [h₄]
    simp
  refine .patchAt hsplit hstart' (hop v point 0 b₄.ops.size) fun b₅ h₅ => ?_
  have hnext : ∀ js, Build.closing other ends (stop :: js) = Build.closing other (ends ++ [stop]) js :=
    fun js => by simp [Build.closing]
  have hconcat : b₅.ops.toList = (b.ops.toList ++ op v point b₄.ops.size :: xs) ++ [.jump 0] := by
    rw [h₅, List.append_assoc, List.cons_append]
  have hjumps : Jumps b₅.ops.toList (ends ++ [stop]) := by
    intro n hn
    obtain hn | hn := List.mem_append.1 hn
    · exact h₅ ▸ hends.append _ n hn
    · exact ⟨0, by rw [hconcat, List.mem_singleton.1 hn, hstop', List.getElem?_concat_length]⟩
  simp only [pure_bind, hnext]
  refine (hothers b₅ _ hjumps).andThen fun _ rest b₆ h₆ => .here_right (.pure ?_)
  rw [Closes, aimAll_concat, h₅, hends.aimAll_append] at h₆
  have hlength : stop = (aimAll b₆.ops.size ends b.ops.toList ++ op v point b₄.ops.size :: xs).length := by
    simpa using hstop'
  have hset := set_concat (aimAll b₆.ops.size ends b.ops.toList ++ op v point b₄.ops.size :: xs)
    (.jump 0) (.jump b₆.ops.size) []
  rw [← hlength, List.append_assoc, List.append_assoc, List.cons_append, List.cons_append] at hset
  rw [Array.length_toList, hset] at h₆
  rw [Closes, Array.length_toList, h₆]
  simp

end arms

namespace Node

open Build

variable (joins : Bool) (out : Output)

def buildOptional : Option (List Node) → Build Unit
  | none => return ()
  | some b => Build.inScope (buildBlock joins out "" b)

def buildIndex : Option String → Build (Option Nat)
  | none => return none
  | some name => some <$> declare name .int

def buildLoop (var : String) (index : Option String) (items : Code) (b : List Node)
    (onEmpty : Option Nat) : Build Nat := Build.inScope do
  let list ← temporary "loop list"
  let cursor ← temporary "loop cursor"
  let start ← emitPoint (.forInit · items list cursor onEmpty)
  let item ← declare var .unknown
  let position ← buildIndex index
  let head ← Build.here
  let next ← emit (.forNext list cursor item position 0)
  Build.inScope (buildBlock joins out "" b)
  let _ ← emit (.jump head)
  patch next (← Build.here)
  return start

theorem build_branch (bs : List (Expr × List Node)) (o : Option (List Node)) :
    (branch bs o).build joins out =
      buildBranches joins out bs >>= closing (buildOptional joins out o) [] := by
  cases o <;> rfl

theorem build_switch (e : Expr) (cs : List (List Expr × List Node)) (o : Option (List Node)) :
    («switch» e cs o).build joins out = Build.inScope (do
      let value ← e.compile
      let subject ← temporary "switch subject"
      let _ ← emitPoint (.store · subject value true)
      buildCases joins out subject cs >>= closing (buildOptional joins out o) []) := by
  cases o <;> rfl

theorem build_each (var : String) (index : Option String) (items : Expr) (b : List Node)
    (ifEmpty : Option (List Node)) : (each var index items b ifEmpty).build joins out = (do
      let items ← items.compile
      let start ← buildLoop joins out var index items b (ifEmpty.map fun _ => 0)
      match ifEmpty with
      | none => return ()
      | some b =>
        let skip ← emit (.jump 0)
        patch start (← Build.here)
        Build.inScope (buildBlock joins out "" b)
        patch skip (← Build.here)) := by
  cases index <;> cases ifEmpty <;> rfl

theorem buildBlock_cons {joins : Bool} {n : Node} (h : joins = true → ∀ s, n ≠ text s)
    (pending : String) (ns : List Node) : buildBlock joins out pending (n :: ns) = (do
      emitText out pending
      n.build joins out
      buildBlock joins out "" ns) := by
  cases joins with
  | false => rfl
  | true =>
    cases n with
    | text s => exact absurd rfl (h rfl s)
    | _ => rfl

theorem buildChildren_cons {n : Node} (h : ∀ e, n ≠ key e) (ns : List Node) :
    buildChildren joins out (n :: ns) = (do
      n.build joins out
      buildChildren joins out ns) := by
  cases n with
  | key e => exact absurd rfl (h e)
  | _ => rfl

end Node

namespace Build

open Node

variable {joins : Bool} {b : Builder}

theorem Mirrors.index (index : Option String) : (buildIndex index).Mirrors (declareIndex index) b
    fun x y all => x = y ∧ all = b.ops.toList := by
  cases index with
  | none => exact .pure ⟨rfl, rfl⟩
  | some name =>
    rw [buildIndex, declareIndex, map_eq_pure_bind, map_eq_pure_bind]
    exact (Mirrors.declare _ _).bind fun _ _ _ h => .pure ⟨congrArg some h.1, h.2⟩

/-- The first op of a loop is known but for its target, which is aimed at last. -/
theorem Mirrors.loop {out : Output} {var : String} {index : Option String} {items : Code}
    {block : List Node}
    (hblock : (buildBlock joins out "" block).Writes (compileBlock joins out "" block))
    (onEmpty : Option Nat) :
    (buildLoop joins out var index items block onEmpty).Mirrors
      (compileLoop joins out var index items block) b fun start y all => start = b.ops.size ∧
        (∃ point list cursor, y.1 = .forInit point items list cursor) ∧
        all = b.ops.toList ++ y.1 onEmpty :: y.2 := by
  refine .inScope fun b₀ h₀ => ?_
  refine (Mirrors.temporary _).bind fun list list' b₁ ⟨hlist, h₁⟩ => ?_
  refine (Mirrors.temporary _).bind fun cursor cursor' b₂ ⟨hcursor, h₂⟩ => ?_
  refine (Mirrors.emitPoint _).bind fun start point b₃ ⟨hstart, h₃⟩ => ?_
  refine (Mirrors.declare _ _).bind fun item item' b₄ ⟨hitem, h₄⟩ => ?_
  refine (Mirrors.index index).bind fun position position' b₅ ⟨hposition, h₅⟩ => ?_
  cases hlist
  cases hcursor
  cases hitem
  cases hposition
  refine .here_left (.here_right ?_)
  refine (Mirrors.emit _).bind fun next _ b₆ ⟨hnext, h₆⟩ => ?_
  refine (hblock.inScope b₆).bind fun _ body b₇ h₇ => ?_
  refine (Mirrors.emit _).bind fun _ _ b₈ ⟨_, h₈⟩ => .here_left (.here_right ?_)
  have hbefore : b₂.ops.toList = b.ops.toList := by rw [h₂, h₁, h₀]
  have hnext' : next =
      (b.ops.toList ++ [Op.forInit point items list cursor onEmpty]).length := by
    rw [hnext, ← Array.length_toList, h₅, h₄, h₃, hbefore]
  have hsplit : b₈.ops.toList = (b.ops.toList ++ [.forInit point items list cursor onEmpty]) ++
      .forNext list cursor item position 0 :: (body ++ [.jump b₅.ops.size]) := by
    rw [h₈, h₇, h₆, h₅, h₄, h₃, hbefore]
    simp
  refine .patchAt hsplit hnext' rfl fun b₉ h₉ => .pure ?_
  refine ⟨?_, ⟨_, _, _, rfl⟩, ?_⟩
  · rw [hstart, ← Array.length_toList, hbefore, Array.length_toList]
  · rw [h₉]
    simp

theorem Mirrors.loopElse {out : Output} {var : String} {index : Option String} {items : Code}
    {block other : List Node}
    (hblock : (buildBlock joins out "" block).Writes (compileBlock joins out "" block))
    (hother : (buildBlock joins out "" other).Writes (compileBlock joins out "" other)) :
    Mirrors (do
      let start ← buildLoop joins out var index items block (some 0)
      let skip ← Build.emit (.jump 0)
      Build.patch start (← Build.here)
      Build.inScope (buildBlock joins out "" other)
      Build.patch skip (← Build.here)) (do
      let (start, loop) ← compileLoop joins out var index items block
      place
      let empty ← Compile.here
      let body ← Compile.inScope (compileBlock joins out "" other)
      return start (some empty) :: (loop ++ .jump (← Compile.here) :: body)) b
      fun _ ops all => all = b.ops.toList ++ ops := by
  refine (Mirrors.loop hblock (some 0)).bind
    fun start ⟨first, loop⟩ b₁ ⟨hstart, ⟨point, list, cursor, hfirst⟩, h₁⟩ => ?_
  dsimp only at hfirst h₁
  subst hfirst
  refine (Mirrors.emit _).bind fun skip _ b₂ ⟨hskip, h₂⟩ => .here_left (.here_right ?_)
  let init := Op.forInit point items list cursor (some b₂.ops.size)
  have hskip' : skip = (b.ops.toList ++ init :: loop).length := by
    rw [hskip, ← Array.length_toList, h₁]
    simp
  have hsplit : b₂.ops.toList =
      b.ops.toList ++ Op.forInit point items list cursor (some 0) :: (loop ++ [.jump 0]) := by
    rw [h₂, h₁]
    simp
  refine .patchAt hsplit (hstart.trans Array.length_toList.symm) rfl fun b₃ h₃ => ?_
  refine (hother.inScope b₃).bind fun _ ops b₄ h₄ => .here_left (.here_right ?_)
  have hlast : b₄.ops.toList = (b.ops.toList ++ init :: loop) ++ .jump 0 :: ops := by
    rw [h₄, h₃]
    simp [init]
  rw [← bind_pure (Build.patch skip _)]
  refine .patchAt hlast hskip' rfl fun b₅ h₅ => .pure ?_
  rw [h₅]
  simp [init]

end Build

namespace Node

open Build

variable {joins : Bool}

mutual

theorem build_writes : (n : Node) → (out : Output) →
    (n.build joins out).Writes (n.compile joins out)
  | .text s, out => fun _ => .emitText out s
  | .print e, out => fun b => by
    rw [compile_print]
    refine (Mirrors.lift (.quiet (.expr e))).bind fun c c' b₁ ⟨hc, h₁⟩ => ?_
    cases hc
    exact (Mirrors.emitPoint _).bind fun _ point b₂ ⟨_, h₂⟩ => .pure (by rw [h₂, h₁])
  | .branch bs o, out => fun b => by
    rw [build_branch, compile_branch]
    exact (buildBranches_closes bs out (buildOptional_writes o out) b [] nofun).mono
      fun _ _ _ h => h
  | .switch e cs o, out => by
    rw [build_switch, compile_switch]
    refine Writes.inScope fun b => ?_
    refine (Mirrors.lift (.quiet (.expr e))).bind fun c c' b₁ ⟨hc, h₁⟩ => ?_
    refine (Mirrors.temporary _).bind fun subject subject' b₂ ⟨hsubject, h₂⟩ => ?_
    cases hc
    cases hsubject
    refine (Mirrors.emitPoint _).bind fun _ point b₃ ⟨_, h₃⟩ => ?_
    refine (buildCases_closes cs out subject (buildOptional_writes o out) b₃ [] nofun).andThen
      fun _ ops b₄ h₄ => .pure ?_
    rw [show b₄.ops.toList = b₃.ops.toList ++ ops from h₄, h₃, h₂, h₁, List.append_assoc]
    rfl
  | .each var index items block none, out => fun b => by
    rw [build_each, compile_each]
    refine (Mirrors.lift (.quiet (.expr items))).bind fun c c' b₁ ⟨hc, h₁⟩ => ?_
    cases hc
    refine (Mirrors.loop (buildBlock_writes block out "") none).bind
      fun start y b₂ ⟨_, _, h₂⟩ => .pure ?_
    rw [h₂, h₁]
  | .each var index items block (some other), out => fun b => by
    rw [build_each, compile_each]
    refine (Mirrors.lift (.quiet (.expr items))).bind fun c c' b₁ ⟨hc, h₁⟩ => ?_
    cases hc
    exact (Mirrors.loopElse (buildBlock_writes block out "") (buildBlock_writes other out "")).mono
      fun _ _ _ h => h.trans (by rw [h₁])
  | .bind name e, out => fun b => by
    rw [compile_bind]
    refine (Mirrors.lift (.quiet (.expr e))).bind fun c c' b₁ ⟨hc, h₁⟩ => ?_
    refine (Mirrors.declare _ _).bind fun slot slot' b₂ ⟨hslot, h₂⟩ => ?_
    cases hc
    cases hslot
    exact (Mirrors.emitPoint _).bind fun _ point b₃ ⟨_, h₃⟩ => .pure (by rw [h₃, h₂, h₁])
  | .capture name kind block, out => fun b => by
    rw [compile_capture]
    refine (Mirrors.temporary _).bind fun buffer buffer' b₁ ⟨hbuffer, h₁⟩ => ?_
    cases hbuffer
    refine (Mirrors.emit _).bind fun _ _ b₂ ⟨_, h₂⟩ => ?_
    refine ((buildBlock_writes block _ "").inScope b₂).bind fun _ body b₃ h₃ => ?_
    refine (Mirrors.declare _ _).bind fun dest dest' b₄ ⟨hdest, h₄⟩ => ?_
    cases hdest
    refine (Mirrors.emit _).bind fun _ _ b₅ ⟨_, h₅⟩ => .pure ?_
    rw [h₅, h₄, h₃, h₂, h₁]
    simp
  | .call target data as, out => by
    rw [compile_call]
    refine Writes.inScope fun b => ?_
    refine (buildArgs_mirrors as b).bind fun args y b₁ ⟨hargs, h₁⟩ => ?_
    refine (Mirrors.lift (.quiet (.paramsBase data))).bind fun base base' b₂ ⟨hbase, h₂⟩ => ?_
    refine (Mirrors.lift (.quiet (.callee target))).bind fun callee callee' b₃ ⟨hcallee, h₃⟩ => ?_
    cases hargs
    cases hbase
    cases hcallee
    refine (Mirrors.emitPoint _).bind fun _ point b₄ ⟨_, h₄⟩ => .pure ?_
    rw [h₄, h₃, h₂, h₁, List.append_assoc]
  | .tag name children selfClosing, out => fun b => by
    rw [compile_tag]
    refine (Mirrors.emitText out _).bind fun _ start b₁ h₁ => ?_
    refine (buildChildren_writes children out b₁).bind fun _ body b₂ h₂ => ?_
    refine (Mirrors.emitText out _).andThen fun _ stop b₃ h₃ => .pure ?_
    rw [h₃, h₂, h₁]
    simp
  | .key _, _ => fun _ => rfl

theorem buildOptional_writes : (o : Option (List Node)) → (out : Output) →
    (buildOptional joins out o).Writes (compileOptional joins out o)
  | none, _ => fun _ => .pure (List.append_nil _).symm
  | some block, out => (buildBlock_writes block out "").inScope

theorem buildBlock_writes : (ns : List Node) → (out : Output) → (pending : String) →
    (buildBlock joins out pending ns).Writes (compileBlock joins out pending ns)
  | [], out, pending => fun _ => .emitText out pending
  | n :: ns, out, pending => by
    by_cases hjoin : joins = true ∧ ∃ s, n = .text s
    · obtain ⟨hj, s, rfl⟩ := hjoin
      have h := buildBlock_writes ns out (pending ++ s)
      rw [hj] at h ⊢
      exact h
    · have hnot : joins = true → ∀ s, n ≠ .text s := fun hj s hn => hjoin ⟨hj, s, hn⟩
      rw [buildBlock_cons out hnot, compileBlock_cons out hnot]
      intro b
      refine (Mirrors.emitText out pending).bind fun _ before b₁ h₁ => ?_
      refine (build_writes n out b₁).bind fun _ ops b₂ h₂ => ?_
      refine (buildBlock_writes ns out "" b₂).andThen fun _ rest b₃ h₃ => .pure ?_
      rw [h₃, h₂, h₁]
      simp

theorem buildBranches_closes : (bs : List (Expr × List Node)) → (out : Output) →
    {other : Build Unit} → {otherwise : Compile (List Op)} → other.Writes otherwise →
    (b : Builder) → (ends : List Nat) → Jumps b.ops.toList ends →
    (buildBranches joins out bs >>= closing other ends).Mirrors
      (compileBranches joins out bs otherwise) b fun _ => Closes b ends
  | [], _, _, _, ho, _, _, hends => ho.closing hends
  | (e, block) :: bs, out, _, _, ho, _, _, hends =>
    (buildBlock_writes block out "").arm (fun c p => .branchUnless p c) (.expr e)
      (fun _ _ _ _ => rfl) (buildBranches_closes bs out ho) hends

theorem buildCases_closes : (cs : List (List Expr × List Node)) → (out : Output) →
    (subject : Nat) → {other : Build Unit} → {otherwise : Compile (List Op)} →
    other.Writes otherwise → (b : Builder) → (ends : List Nat) → Jumps b.ops.toList ends →
    (buildCases joins out subject cs >>= closing other ends).Mirrors
      (compileCases joins out subject cs otherwise) b fun _ => Closes b ends
  | [], _, _, _, _, ho, _, _, hends => ho.closing hends
  | (es, block) :: cs, out, subject, _, _, ho, _, _, hends =>
    (buildBlock_writes block out "").arm (fun vs p => .branchUnlessMatch p subject vs) (.all es)
      (fun _ _ _ _ => rfl) (buildCases_closes cs out subject ho) hends

theorem buildArgs_mirrors : (as : List Arg) → (b : Builder) →
    (buildArgs joins as).Mirrors (compileArgs joins as) b fun x y all =>
      x = y.2 ∧ all = b.ops.toList ++ y.1
  | [], b => .pure ⟨rfl, (List.append_nil _).symm⟩
  | .value name e :: as, b => by
    rw [compileArgs_value]
    refine (Mirrors.lift (.quiet (.expr e))).bind fun c c' b₁ ⟨hc, h₁⟩ => ?_
    cases hc
    refine (buildArgs_mirrors as b₁).bind fun x y b₂ ⟨hxy, h₂⟩ => .pure ⟨?_, ?_⟩
    · rw [hxy]
    · rw [h₂, h₁]
  | .content name kind block :: as, b => by
    rw [compileArgs_content]
    refine (Mirrors.temporary _).bind fun buffer buffer' b₁ ⟨hbuffer, h₁⟩ => ?_
    cases hbuffer
    refine (Mirrors.emit _).bind fun _ _ b₂ ⟨_, h₂⟩ => ?_
    refine ((buildBlock_writes block _ "").inScope b₂).bind fun _ body b₃ h₃ => ?_
    refine (Mirrors.emit _).bind fun _ _ b₄ ⟨_, h₄⟩ => ?_
    refine (buildArgs_mirrors as b₄).bind fun x y b₅ ⟨hxy, h₅⟩ => .pure ⟨?_, ?_⟩
    · rw [hxy]
    · rw [h₅, h₄, h₃, h₂, h₁]
      simp

theorem buildChildren_writes : (ns : List Node) → (out : Output) →
    (buildChildren joins out ns).Writes (compileChildren joins out ns)
  | [], _ => fun _ => .pure (List.append_nil _).symm
  | n :: ns, out => fun b => by
    by_cases hkey : ∃ e, n = .key e
    · obtain ⟨e, rfl⟩ := hkey
      rw [compileChildren_key]
      refine (Mirrors.lift (.quiet (.expr e))).bind fun _ _ b₁ ⟨_, h₁⟩ => ?_
      exact h₁ ▸ buildChildren_writes ns out b₁
    · have hnot : ∀ e, n ≠ .key e := fun e he => hkey ⟨e, he⟩
      rw [buildChildren_cons joins out hnot, compileChildren_cons joins out hnot]
      refine (build_writes n out b).bind fun _ ops b₁ h₁ => ?_
      refine (buildChildren_writes ns out b₁).andThen fun _ rest b₂ h₂ => .pure ?_
      rw [h₂, h₁, List.append_assoc]

end

end Node

theorem Build.Writes.yields {m : Build Unit} {c : Compile (List Op)} (h : m.Writes c)
    {b b' : Builder} (hm : m b = (.ok (), b')) :
    ∃ ops, c.Yields b.state ops b'.state ∧ b'.ops.toList = b.ops.toList ++ ops := by
  have hb := h b
  unfold Build.Mirrors at hb
  rcases hc : c b.state with ⟨e | ops, σ⟩
  · simp only [hc, hm, reduceCtorEq] at hb
  · simp only [hc] at hb
    obtain ⟨_, b'', hm', rfl, hall⟩ := hb
    cases hm.symm.trans hm'
    exact ⟨ops, hc, hall⟩

theorem Build.procedure_mirrors (joins : Bool) (t : Template) :
    (Build.procedure joins t).Mirrors (Compile.procedure joins t) (.of (.empty t.name))
      fun p q _ => p = q := by
  refine (Build.Mirrors.lift (.scopes _)).bind fun header _ b₁ ⟨hheader, h₁⟩ => ?_
  refine (Build.Mirrors.lift (.params t.params)).bind fun ps _ b₂ ⟨hps, h₂⟩ => ?_
  refine (Build.Mirrors.lift (.stateVars t.state)).bind fun vs _ b₃ ⟨hvs, h₃⟩ => ?_
  refine (Node.buildBlock_writes t.body .sink "" b₃).bind fun _ ops b₄ h₄ => ?_
  cases hheader
  cases hps
  cases hvs
  refine (Build.Mirrors.lift (.finish header)).bind fun _ _ b₅ ⟨_, h₅⟩ => ?_
  have hops : b₅.ops = ops.toArray := by
    apply Array.toList_inj.1
    rw [h₅, h₄, h₃, h₂, h₁]
    rfl
  exact ⟨_, b₅, rfl, rfl, by rw [hops]; rfl⟩

/-- A template compiles to what its ops as a list give. -/
theorem Template.compile_eq (joins : Bool) (t : Template) : t.compile joins =
    match (Compile.procedure joins t).run (.of (.empty t.name)) with
    | (.ok p, s) => .ok ⟨t.name, t.isPrivate, t.kind.rendered, p, s.calls.toList⟩
    | (.error e, _) => .error e := by
  have h := Build.procedure_mirrors joins t
  unfold Build.Mirrors at h
  rw [show (Builder.of (.empty t.name)).state = .of (.empty t.name) from rfl] at h
  unfold Template.compile ExceptT.run
  rcases hc : Compile.procedure joins t (.of (.empty t.name)) with ⟨e | p, σ⟩
  · simp only [hc] at h
    rcases hm : Build.procedure joins t (.of (.empty t.name)) with ⟨e' | p, b⟩
    · rw [hm] at h
      cases h
      rfl
    · rw [hm] at h
      cases h
  · simp only [hc] at h
    obtain ⟨_, b, hm, rfl, rfl⟩ := h
    rw [hm]
    rfl

end ResumableTemplates
