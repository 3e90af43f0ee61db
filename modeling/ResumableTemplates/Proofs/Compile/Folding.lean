import ResumableTemplates.Proofs.Compile.Expression
import ResumableTemplates.Proofs.Render.Effects

/-! Constant folding changes nothing. Beside compiled code stands the direct evaluation of the tree,
which folds nothing and takes operands from left to right as they are needed. Code that an expression
is compiled to is the same computation, up to every pause, error and event; and an expression is a
constant exactly if it has no free leaf and its direct evaluation has a value. -/
namespace ResumableTemplates

namespace Expr

mutual

def siteCount : Expr → Nat
  | literal _ | var _ | element _ _ none => 0
  | template _ | element _ _ (some _) => 1
  | unary _ e | field e _ _ => e.siteCount
  | binary _ l r | index l r => l.siteCount + r.siteCount
  | cond c t e => c.siteCount + t.siteCount + e.siteCount
  | list es | builtin _ es => siteCountAll es
  | record fs => siteCountFields fs

def siteCountAll : List Expr → Nat
  | [] => 0
  | e :: es => e.siteCount + siteCountAll es

def siteCountFields : List (String × Expr) → Nat
  | [] => 0
  | (_, e) :: fs => e.siteCount + siteCountFields fs

end

end Expr

def Visit.IsFree : Visit → Prop
  | .expr (.var _) | .expr (.template _) | .expr (.element ..) => True
  | _ => False

def Expr.IsGround (e : Expr) : Prop := ∀ u ∈ e.visits, ¬ u.IsFree

def BinaryOp.direct (left right : Render Value) : BinaryOp → Render Value
  | .and => do if (← left).isTruthy then return .bool (← right).isTruthy else return .bool false
  | .or => do if (← left).isTruthy then return .bool true else return .bool (← right).isTruthy
  | .orElse => do
    let x ← left
    if x.isNull then right else return x
  | op => do
    let x ← left
    let y ← right
    Render.ofData (Value.binary op x y)

section Direct

variable (s : Scopes) (env : Env) (a : Activation)

def VarRef.direct (v : VarRef) : Render Value :=
  match v.slot? s with
  | some n => a.variable n
  | none =>
    match v with
    | .injected n => return Record.read env.injected n
    | _ => a.contradiction (.unresolved v.kindName v.name)

namespace Expr

mutual

/-- The value of an expression as its tree is gone through, with its sites numbered from `site` on.
It is lazy only if it is read straight from a variable. -/
def direct (site : Nat) : Expr → Render Value
  | literal l => return l.value
  | var v => v.direct s env a
  | binary op l r => op.direct (Render.forced env (l.direct site))
      (Render.forced env (r.direct (site + l.siteCount)))
  | unary op e => do Render.ofData (Value.unary op (← Render.forced env (e.direct site)))
  | cond c t e => do
    if (← Render.forced env (c.direct site)).isTruthy then
      Render.forced env (t.direct (site + c.siteCount))
    else Render.forced env (e.direct (site + c.siteCount + t.siteCount))
  | list es => return .list (← directAll site es)
  | record fs => return .record (Record.ofList (← directFields site fs))
  | field b name nullSafe => do
    Render.ofData ((← Render.forced env (b.direct site)).fieldOf name nullSafe)
  | index b k => do
    let base ← Render.forced env (b.direct site)
    let key ← Render.forced env (k.direct (site + b.siteCount))
    Render.ofData (base.item key)
  | builtin f es => do Render.ofData (Value.apply f (← directAll site es))
  | template name => do
    let t ← a.resolve env .literal site name
    return .template (env.library.nameOf t) t
  | element id name none => return .element ⟨id, name, none⟩
  | element id name (some table) => do
    return .element ⟨id, name, some (← a.describe env site table id)⟩

def directAll (site : Nat) : List Expr → Render (List Value)
  | [] => return []
  | e :: es => do
    let v ← Render.forced env (e.direct site)
    return v :: (← directAll (site + e.siteCount) es)

def directFields (site : Nat) : List (String × Expr) → Render (List (String × Value))
  | [] => return []
  | (k, e) :: fs => do
    let v ← Render.forced env (e.direct site)
    return (k, v) :: (← directFields (site + e.siteCount) fs)

end

end Expr

end Direct

theorem Render.fail_bind (e : RenderError) (f : α → Render β) :
    (Render.fail e : Render α) >>= f = Render.fail e := by
  funext s
  rw [Render.bind_apply, Render.fail_apply]
  rfl

theorem Render.forced_pure {env : Env} {v : Value} (hv : v.IsPlain) :
    Render.forced env (pure v) = pure v := by
  rw [Render.forced, pure_bind]
  cases v with
  | lazy i v => exact hv.1.elim
  | _ => rfl

theorem Render.forced_fail (env : Env) (e : RenderError) :
    Render.forced env (Render.fail e) = Render.fail e := Render.fail_bind e _

theorem BinaryOp.direct_eq (op : BinaryOp) (left right : Render Value) :
    op.direct left right = left >>= fun x =>
      match op.decidedBy? x with
      | some v => pure v
      | none => right >>= fun y => Render.ofData (Value.binary op x y) := by
  cases op
  case and =>
    apply bind_congr
    intro x
    cases hx : x.isTruthy
    · simp [decidedBy?, hx]
    · simp only [decidedBy?, hx, Value.binary, Bool.true_and, if_true]
      rfl
  case or =>
    apply bind_congr
    intro x
    cases hx : x.isTruthy
    · simp only [decidedBy?, hx, Value.binary, Bool.false_or, Bool.false_eq_true, if_false]
      rfl
    · simp [decidedBy?, hx]
  case orElse =>
    apply bind_congr
    intro x
    cases hx : x.isNull
    · simp [decidedBy?, hx]
    · simp only [decidedBy?, hx, Value.binary, Render.ofData, if_true]
      exact (bind_pure right).symm
  all_goals rfl

/-- Holds of a computation that does nothing but come to a result, or to an error if there is none.
-/
def Render.Settles (r : Render α) : Option α → Prop
  | some v => r = pure v
  | none => ∃ e, r = Render.fail e

namespace Render.Settles

theorem bind {r : Render α} {o : Option α} {f : α → Render β} {g : α → Option β} (h : r.Settles o)
    (hf : ∀ v, o = some v → (f v).Settles (g v)) : (r >>= f).Settles (o >>= g) := by
  cases o with
  | none =>
    obtain ⟨e, rfl⟩ := h
    exact ⟨e, Render.fail_bind e f⟩
  | some v =>
    obtain rfl := h
    rw [pure_bind]
    exact hf v rfl

theorem ofData (x : Except DataError α) : (liftM (Render.ofData x) : Render α).Settles x.toOption := by
  cases x with
  | error e => exact ⟨.data e, rfl⟩
  | ok v => rfl

theorem forced {env : Env} {r : Render Value} {o : Option Value} (h : r.Settles o)
    (ho : ∀ v, o = some v → v.IsPlain) : (Render.forced env r).Settles o := by
  cases o with
  | none =>
    obtain ⟨e, rfl⟩ := h
    exact ⟨e, Render.forced_fail env e⟩
  | some v =>
    obtain rfl := h
    exact Render.forced_pure (ho v rfl)

end Render.Settles

namespace Expr

section Constant

variable (s : Scopes) (env : Env) (a : Activation)

mutual

theorem siteCount_of_isConstant : {e : Expr} → e.isConstant = true → e.siteCount = 0
  | literal _, _ => by rw [siteCount]
  | binary _ l r, h | index l r, h => by
    rw [isConstant, Bool.and_eq_true] at h
    rw [siteCount, siteCount_of_isConstant h.1, siteCount_of_isConstant h.2]
  | unary _ e, h | field e _ _, h => by
    rw [isConstant] at h
    rw [siteCount, siteCount_of_isConstant h]
  | cond c t e, h => by
    rw [isConstant, Bool.and_eq_true, Bool.and_eq_true] at h
    rw [siteCount, siteCount_of_isConstant h.1.1, siteCount_of_isConstant h.1.2,
      siteCount_of_isConstant h.2]
  | list es, h | builtin _ es, h => by
    rw [isConstant] at h
    rw [siteCount, siteCountAll_of_isConstant h]
  | record fs, h => by
    rw [isConstant] at h
    rw [siteCount, siteCountFields_of_isConstant h]

theorem siteCountAll_of_isConstant : {es : List Expr} → isConstantAll es = true →
    siteCountAll es = 0
  | [], _ => by rw [siteCountAll]
  | e :: es, h => by
    rw [isConstantAll, Bool.and_eq_true] at h
    rw [siteCountAll, siteCount_of_isConstant h.1, siteCountAll_of_isConstant h.2]

theorem siteCountFields_of_isConstant : {fs : List (String × Expr)} →
    isConstantFields fs = true → siteCountFields fs = 0
  | [], _ => by rw [siteCountFields]
  | (_, e) :: fs, h => by
    rw [isConstantFields, Bool.and_eq_true] at h
    rw [siteCountFields, siteCount_of_isConstant h.1, siteCountFields_of_isConstant h.2]

end

mutual

/-- The direct evaluation of a constant does nothing but come to what folding finds, or to an error if
folding finds nothing. -/
theorem direct_settles (site : Nat) : {e : Expr} → e.isConstant = true →
    (e.direct s env a site).Settles e.constantValue?
  | literal l, _ => by
    rw [direct, constantValue?]
    exact rfl
  | binary op l r, h => by
    rw [isConstant, Bool.and_eq_true] at h
    rw [direct, constantValue?, BinaryOp.direct_eq]
    apply (forced_settles site h.1).bind
    intro x _
    cases op.decidedBy? x with
    | some v => exact rfl
    | none => exact (forced_settles _ h.2).bind fun y _ => .ofData _
  | unary op e, h => by
    rw [isConstant] at h
    rw [direct, constantValue?]
    exact (forced_settles site h).bind fun x _ => .ofData _
  | cond c t e, h => by
    rw [isConstant, Bool.and_eq_true, Bool.and_eq_true] at h
    rw [direct, constantValue?]
    apply (forced_settles site h.1.1).bind
    intro x _
    split
    · exact forced_settles _ h.1.2
    · exact forced_settles _ h.2
  | list es, h => by
    rw [isConstant] at h
    rw [direct, constantValue?]
    exact (directAll_settles site h).bind fun _ _ => rfl
  | record fs, h => by
    rw [isConstant] at h
    rw [direct, constantValue?]
    exact (directFields_settles site h).bind fun _ _ => rfl
  | field b n nullSafe, h => by
    rw [isConstant] at h
    rw [direct, constantValue?]
    exact (forced_settles site h).bind fun _ _ => .ofData _
  | index b k, h => by
    rw [isConstant, Bool.and_eq_true] at h
    rw [direct, constantValue?]
    apply (forced_settles site h.1).bind
    intro x _
    exact (forced_settles _ h.2).bind fun _ _ => .ofData _
  | builtin f es, h => by
    rw [isConstant] at h
    rw [direct, constantValue?]
    exact (directAll_settles site h).bind fun _ _ => .ofData _

theorem forced_settles (site : Nat) {e : Expr} (h : e.isConstant = true) :
    (Render.forced env (e.direct s env a site)).Settles e.constantValue? :=
  (direct_settles site h).forced fun _ => constantValue?_isPlain

theorem directAll_settles (site : Nat) : {es : List Expr} → isConstantAll es = true →
    (directAll s env a site es).Settles (constantValues? es)
  | [], _ => by
    rw [directAll, constantValues?]
    exact rfl
  | e :: es, h => by
    rw [isConstantAll, Bool.and_eq_true] at h
    rw [directAll, constantValues?]
    apply (forced_settles site h.1).bind
    intro v _
    exact (directAll_settles _ h.2).bind fun _ _ => rfl

theorem directFields_settles (site : Nat) : {fs : List (String × Expr)} →
    isConstantFields fs = true →
    (directFields s env a site fs).Settles (constantFields? fs)
  | [], _ => by
    rw [directFields, constantFields?]
    exact rfl
  | (k, e) :: fs, h => by
    rw [isConstantFields, Bool.and_eq_true] at h
    rw [directFields, constantFields?]
    apply (forced_settles site h.1).bind
    intro v _
    exact (directFields_settles _ h.2).bind fun _ _ => rfl

end

end Constant

mutual

theorem isConstant_iff : (e : Expr) → (e.isConstant = true ↔ e.IsGround)
  | literal l => by simp [isConstant, IsGround, visits, Visit.IsFree]
  | var v => by simp [isConstant, IsGround, visits, Visit.IsFree]
  | template n => by simp [isConstant, IsGround, visits, Visit.IsFree]
  | element i n t => by simp [isConstant, IsGround, visits, Visit.IsFree]
  | binary op l r => by
    simp [isConstant, IsGround, visits, Visit.IsFree, or_imp, forall_and, isConstant_iff l,
      isConstant_iff r]
  | index l r => by
    simp [isConstant, IsGround, visits, Visit.IsFree, or_imp, forall_and, isConstant_iff l,
      isConstant_iff r]
  | unary op e => by
    simp [isConstant, IsGround, visits, Visit.IsFree, isConstant_iff e]
  | field e n nullSafe => by
    simp [isConstant, IsGround, visits, Visit.IsFree, isConstant_iff e]
  | cond c t e => by
    simp [isConstant, IsGround, visits, Visit.IsFree, or_imp, forall_and, isConstant_iff c,
      isConstant_iff t, isConstant_iff e, and_assoc]
  | list es => by
    simp [isConstant, IsGround, visits, Visit.IsFree, isConstantAll_iff es]
  | builtin f es => by
    simp [isConstant, IsGround, visits, Visit.IsFree, isConstantAll_iff es]
  | record fs => by
    simp [isConstant, IsGround, visits, Visit.IsFree, isConstantFields_iff fs]

theorem isConstantAll_iff : (es : List Expr) →
    (isConstantAll es = true ↔ ∀ u ∈ visitsAll es, ¬ u.IsFree)
  | [] => by simp [isConstantAll, visitsAll]
  | e :: es => by
    simp [isConstantAll, visitsAll, or_imp, forall_and, isConstant_iff e, isConstantAll_iff es,
      IsGround]

theorem isConstantFields_iff : (fs : List (String × Expr)) →
    (isConstantFields fs = true ↔ ∀ u ∈ visitsFields fs, ¬ u.IsFree)
  | [] => by simp [isConstantFields, visitsFields]
  | (k, e) :: fs => by
    simp [isConstantFields, visitsFields, or_imp, forall_and, isConstant_iff e,
      isConstantFields_iff fs, IsGround]

end

section Compiled

open Compile

/-- Holds of code that is the direct evaluation of an expression, compiled in one state and leaving
another. -/
def Mirrored (e : Expr) (σ : CompileState) (c : Code) (τ : CompileState) : Prop :=
  τ.scopes = σ.scopes ∧ τ.nextSite = σ.nextSite + e.siteCount ∧
    ∀ env a, c.read env a = e.direct σ.scopes env a σ.nextSite

theorem mirrored_of_fold? {e : Expr} {v : Value} (h : e.fold? = some v) (σ : CompileState) :
    e.Mirrored σ (.const v) σ := by
  unfold fold? at h
  split at h
  · rename_i hc
    refine ⟨rfl, by rw [siteCount_of_isConstant hc, Nat.add_zero], fun env a => ?_⟩
    have hs := direct_settles σ.scopes env a σ.nextSite hc
    rw [h] at hs
    rw [Code.read]
    exact hs.symm
  · cases h

mutual

theorem compile_mirrored : {e : Expr} → {c : Code} → {σ τ : CompileState} →
    e.compile.Yields σ c τ → e.Mirrored σ c τ := by
  intro e c σ τ h
  cases compile_lowers h with
  | folded hv => exact mirrored_of_fold? hv σ
  | literal | template | element | described =>
    exact ⟨rfl, rfl, fun env a => by rw [Code.read, direct]⟩
  | slot hslot | injected hslot =>
    refine ⟨rfl, rfl, fun env a => ?_⟩
    simp only [Code.read, direct, VarRef.direct, hslot]
  | binary hx hy =>
    obtain ⟨hxs, hxn, hx⟩ := compile_mirrored hx
    obtain ⟨hys, hyn, hy⟩ := compile_mirrored hy
    refine ⟨hys.trans hxs, by rw [hyn, hxn, siteCount, Nat.add_assoc], fun env a => ?_⟩
    rw [Code.read, direct, hx, hy, hxs, hxn]
    exact (BinaryOp.direct_eq _ _ _).symm
  | unary hx | field hx =>
    obtain ⟨hs, hn, hx⟩ := compile_mirrored hx
    refine ⟨hs, by rw [hn, siteCount], fun env a => ?_⟩
    rw [Code.read, direct, hx]
  | cond hx hy hz =>
    obtain ⟨hxs, hxn, hx⟩ := compile_mirrored hx
    obtain ⟨hys, hyn, hy⟩ := compile_mirrored hy
    obtain ⟨hzs, hzn, hz⟩ := compile_mirrored hz
    refine ⟨hzs.trans (hys.trans hxs), by rw [hzn, hyn, hxn, siteCount]; omega, fun env a => ?_⟩
    rw [Code.read, direct, hx, hy, hz, hys, hxs, hyn, hxn]
  | list hcs | builtin hcs =>
    obtain ⟨hs, hn, hcs⟩ := compileAll_mirrored hcs
    refine ⟨hs, by rw [hn, siteCount], fun env a => ?_⟩
    rw [Code.read, direct, hcs]
  | record hcs =>
    obtain ⟨hs, hn, hcs⟩ := compileFields_mirrored hcs
    refine ⟨hs, by rw [hn, siteCount], fun env a => ?_⟩
    rw [Code.read, direct, hcs]
  | index hx hy =>
    obtain ⟨hxs, hxn, hx⟩ := compile_mirrored hx
    obtain ⟨hys, hyn, hy⟩ := compile_mirrored hy
    refine ⟨hys.trans hxs, by rw [hyn, hxn, siteCount, Nat.add_assoc], fun env a => ?_⟩
    rw [Code.read, direct, hx, hy, hxs, hxn]

theorem compileAll_mirrored : {es : List Expr} → {cs : List Code} → {σ τ : CompileState} →
    (compileAll es).Yields σ cs τ → τ.scopes = σ.scopes ∧
      τ.nextSite = σ.nextSite + siteCountAll es ∧
      ∀ env a, Code.readAll env a cs = directAll σ.scopes env a σ.nextSite es
  | [], cs, σ, τ, h => by
    obtain ⟨rfl, rfl⟩ := compileAll_nil h
    exact ⟨rfl, rfl, fun env a => by rw [Code.readAll, directAll]⟩
  | e :: es, cs, σ, τ, h => by
    obtain ⟨c, υ, cs, hc, hcs, rfl⟩ := compileAll_cons h
    obtain ⟨hs, hn, hc⟩ := compile_mirrored hc
    obtain ⟨hss, hsn, hcs⟩ := compileAll_mirrored hcs
    refine ⟨hss.trans hs, by rw [hsn, hn, siteCountAll, Nat.add_assoc], fun env a => ?_⟩
    rw [Code.readAll, directAll, hc, hcs, hs, hn]

theorem compileFields_mirrored : {fs : List (String × Expr)} → {cs : List (String × Code)} →
    {σ τ : CompileState} → (compileFields fs).Yields σ cs τ → τ.scopes = σ.scopes ∧
      τ.nextSite = σ.nextSite + siteCountFields fs ∧
      ∀ env a, Code.readFields env a cs = directFields σ.scopes env a σ.nextSite fs
  | [], cs, σ, τ, h => by
    obtain ⟨rfl, rfl⟩ := compileFields_nil h
    exact ⟨rfl, rfl, fun env a => by rw [Code.readFields, directFields]⟩
  | (k, e) :: fs, cs, σ, τ, h => by
    obtain ⟨c, υ, cs, hc, hcs, rfl⟩ := compileFields_cons h
    obtain ⟨hs, hn, hc⟩ := compile_mirrored hc
    obtain ⟨hss, hsn, hcs⟩ := compileFields_mirrored hcs
    refine ⟨hss.trans hs, by rw [hsn, hn, siteCountFields, Nat.add_assoc], fun env a => ?_⟩
    rw [Code.readFields, directFields, hc, hcs, hs, hn]

end

/-- An expression folds to a value exactly if it has no free leaf and its direct evaluation comes to that
value, wherever that takes place. -/
theorem fold?_eq_some_iff {e : Expr} {v : Value} (s : Scopes) (env : Env) (a : Activation) (site : Nat)
    (t : RenderState) : e.fold? = some v ↔ e.IsGround ∧ (e.direct s env a site t).1 = .ok v := by
  rw [fold?, ← isConstant_iff]
  cases hc : e.isConstant with
  | false => simp
  | true =>
    have hs := direct_settles s env a site hc
    cases hv : e.constantValue? with
    | none =>
      obtain ⟨err, hs⟩ := hv ▸ hs
      simp [hs]
    | some u =>
      rw [hv] at hs
      obtain hs : e.direct s env a site = pure u := hs
      simp [hs]

theorem constant_eq_ok_iff {e : Expr} {s : Scopes} {owner : String} {v : Value} :
    e.constant s owner = .ok v ↔ e.fold? = some v := by
  unfold constant
  split
  · rename_i u hu
    simp [hu]
  · rename_i hnone
    simp [hnone]

/-- Folding is not seen at render time: code computes what the direct evaluation of its expression
does, forced or not. A constant is an expression without free leaves whose direct evaluation has a
value. -/
theorem folding_unseen (e : Expr) :
    (∀ σ c τ, e.compile.Yields σ c τ → ∀ env a,
      c.read env a = e.direct σ.scopes env a σ.nextSite ∧
        c.eval env a = Render.forced env (e.direct σ.scopes env a σ.nextSite)) ∧
    ∀ s owner v env a site t,
      e.constant s owner = .ok v ↔ e.IsGround ∧ (e.direct s env a site t).1 = .ok v := by
  constructor
  · intro σ c τ h env a
    obtain ⟨-, -, hread⟩ := compile_mirrored h
    exact ⟨hread env a, by rw [Code.eval, hread]⟩
  · intro s owner v env a site t
    rw [constant_eq_ok_iff]
    exact fold?_eq_some_iff s env a site t

/-- The parts of a sum and of a condition that are known fold, and the variable beside them is read
as before. -/
theorem folding_unseen_partial :
    let known : Expr := .binary .add (.literal (.int 1)) (.literal (.int 2))
    let e : Expr := .cond (.binary .lt known (.literal (.int 4)))
      (.binary .add (.var (.injected "x")) known) (.template "t")
    let c : Code := .cond (.const (.bool true)) (.binary .add (.injected "x") (.const (.int 3)))
      (.template 0 "t")
    let σ := CompileState.of (.empty "page")
    e.compile.Yields σ c { σ with nextSite := 1 } ∧
      ∀ env a, c.read env a = e.direct σ.scopes env a σ.nextSite ∧
        c.eval env a = Render.forced env (e.direct σ.scopes env a σ.nextSite) := by
  intro known e c σ
  have h : e.compile.Yields σ c { σ with nextSite := 1 } := by rfl
  exact ⟨h, (folding_unseen e).1 σ c _ h⟩

end Compiled

end Expr

end ResumableTemplates
