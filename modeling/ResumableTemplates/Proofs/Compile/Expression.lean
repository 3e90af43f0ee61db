import ResumableTemplates.Proofs.Compile.Yields
import ResumableTemplates.Proofs.Procedure.Typing
import ResumableTemplates.Tree.Walk

/-! Compiled expressions read only slots of visible variables. What is folded is plain, and the only
elements described are those of the source. -/
namespace ResumableTemplates

theorem Except.toOption_eq_some {x : Except ε α} {a : α} (h : x.toOption = some a) : x = .ok a := by
  cases x <;> cases h
  rfl

namespace Expr

section Constant

open Value

private theorem plain : Closed (fun _ => True) IsPlain := AsksOnly.closed _

mutual

theorem constantValue?_isPlain : {e : Expr} → {v : Value} → e.constantValue? = some v → v.IsPlain
  | .literal l, v, h => by
    cases h
    cases l <;> trivial
  | .binary op l r, v, h => by
    simp only [constantValue?, Option.bind_eq_bind, Option.bind_eq_some_iff] at h
    obtain ⟨a, ha, h⟩ := h
    have hl := constantValue?_isPlain ha
    split at h
    · rename_i u hu
      cases h
      exact plain.decidedBy? hl hu
    · obtain ⟨b, hb, h⟩ := Option.bind_eq_some_iff.1 h
      exact plain.binary hl (constantValue?_isPlain hb) (Except.toOption_eq_some h)
  | .unary op e, v, h => by
    simp only [constantValue?, Option.bind_eq_bind, Option.bind_eq_some_iff] at h
    obtain ⟨a, -, h⟩ := h
    exact plain.atom (isAtom_of_unary (Except.toOption_eq_some h))
  | .cond c t e, v, h => by
    simp only [constantValue?, Option.bind_eq_bind, Option.bind_eq_some_iff] at h
    obtain ⟨a, -, h⟩ := h
    split at h
    · exact constantValue?_isPlain h
    · exact constantValue?_isPlain h
  | .list es, v, h => by
    simp only [constantValue?, Option.bind_eq_bind, Option.bind_eq_some_iff] at h
    obtain ⟨vs, hvs, h⟩ := h
    cases h
    exact plain.list trivial (constantValues?_isPlain hvs)
  | .record fs, v, h => by
    simp only [constantValue?, Option.bind_eq_bind, Option.bind_eq_some_iff] at h
    obtain ⟨vs, hvs, h⟩ := h
    cases h
    exact plain.record (Record.All.ofList (constantFields?_isPlain hvs))
  | .field b n s, v, h => by
    simp only [constantValue?, Option.bind_eq_bind, Option.bind_eq_some_iff] at h
    obtain ⟨a, ha, h⟩ := h
    exact plain.fieldOf (constantValue?_isPlain ha) (Except.toOption_eq_some h)
  | .index b k, v, h => by
    simp only [constantValue?, Option.bind_eq_bind, Option.bind_eq_some_iff] at h
    obtain ⟨a, ha, k, -, h⟩ := h
    exact plain.itemOf (constantValue?_isPlain ha) (Except.toOption_eq_some h)
  | .builtin f es, v, h => by
    simp only [constantValue?, Option.bind_eq_bind, Option.bind_eq_some_iff] at h
    obtain ⟨vs, -, h⟩ := h
    exact plain.atom (isAtom_of_apply (Except.toOption_eq_some h))
  | .var _, _, h | .template _, _, h | .element .., _, h => by cases h

theorem constantValues?_isPlain : {es : List Expr} → {vs : List Value} →
    constantValues? es = some vs → ∀ v ∈ vs, v.IsPlain
  | [], vs, h => by
    cases h
    exact fun _ hv => by cases hv
  | e :: es, vs, h => by
    simp only [constantValues?, Option.bind_eq_bind, Option.bind_eq_some_iff] at h
    obtain ⟨v, hv, us, hus, h⟩ := h
    cases h
    intro u hu
    cases hu with
    | head => exact constantValue?_isPlain hv
    | tail _ hu => exact constantValues?_isPlain hus u hu

theorem constantFields?_isPlain : {fs : List (String × Expr)} → {vs : List (String × Value)} →
    constantFields? fs = some vs → ∀ f ∈ vs, f.2.IsPlain
  | [], vs, h => by
    cases h
    exact fun _ hv => by cases hv
  | (k, e) :: fs, vs, h => by
    simp only [constantFields?, Option.bind_eq_bind, Option.bind_eq_some_iff] at h
    obtain ⟨v, hv, us, hus, h⟩ := h
    cases h
    intro u hu
    cases hu with
    | head => exact constantValue?_isPlain hv
    | tail _ hu => exact constantFields?_isPlain hus u hu

end

theorem fold?_isPlain {e : Expr} {v : Value} (h : e.fold? = some v) : v.IsPlain := by
  unfold fold? at h
  split at h
  · exact constantValue?_isPlain h
  · cases h

end Constant

end Expr

def Visit.Known (known : String → UInt64 → Prop) : Visit → Prop
  | .expr (.element id _ (some table)) => known table id
  | _ => True

theorem Visit.known_true (v : Visit) : v.Known fun _ _ => True := by
  unfold Visit.Known
  split <;> trivial

def Scopes.Typed (s : Scopes) (Γ : Typing) : Prop :=
  ∀ sc ∈ s.stack, ∀ b ∈ sc.bindings, Γ b.2 = some .value

theorem Scopes.exists_of_lookupKind? {s : Scopes} {name : String} {kind : SlotKind} {slot : Nat}
    (h : s.lookupKind? name kind = some slot) :
    s.kindOf? slot = some kind ∧ ∃ sc ∈ s.stack, (name, slot) ∈ sc.bindings := by
  obtain ⟨sc, hsc, h⟩ := List.exists_of_findSome?_eq_some h
  obtain ⟨h, hkind⟩ := Option.filter_eq_some_iff.1 h
  obtain ⟨_, _, hb, -⟩ := List.lookup_eq_some_iff.1 h
  exact ⟨by simpa using hkind, sc, hsc, by simp [hb]⟩

theorem VarRef.typed_of_slot? {s : Scopes} {Γ : Typing} (hΓ : s.Typed Γ) {v : VarRef} {slot : Nat}
    (h : v.slot? s = some slot) : Γ slot = some .value := by
  have hlook : ∀ {n k}, s.lookupKind? n k = some slot → Γ slot = some .value := by
    intro n k h
    obtain ⟨-, sc, hsc, hb⟩ := Scopes.exists_of_lookupKind? h
    exact hΓ sc hsc _ hb
  cases v with
  | param n =>
    obtain h | ⟨-, h⟩ := Option.or_eq_some_iff.1 h
    · exact hlook h
    · exact hlook h
  | state n => exact hlook h
  | bound n => exact hlook h
  | injected n => exact hlook h

section Reads

open Compile

def Code.StemsFrom (s : Scopes) (vs : List Visit) (c : Code) : Prop :=
  ∃ (e : Expr) (σ τ : CompileState), e.compile.Yields σ c τ ∧ σ.scopes = s ∧ ∀ v ∈ e.visits, v ∈ vs

theorem Code.StemsFrom.mono {s : Scopes} {vs us : List Visit} {c : Code} (h : c.StemsFrom s vs)
    (hsub : ∀ v ∈ vs, v ∈ us) : c.StemsFrom s us := by
  obtain ⟨e, σ, τ, hc, hs, hv⟩ := h
  exact ⟨e, σ, τ, hc, hs, fun v hmem => hsub v (hv v hmem)⟩

mutual

/-- Each part of compiled code stems from the expression that was compiled. -/
theorem Expr.compile_parts : {e : Expr} → {c : Code} → {σ τ : CompileState} →
    e.compile.Yields σ c τ → ∀ d ∈ c.parts, d.StemsFrom σ.scopes e.visits := by
  intro e c σ τ h
  have hself : c.StemsFrom σ.scopes e.visits := ⟨e, σ, τ, h, rfl, fun _ hv => hv⟩
  cases Expr.compile_lowers h with
  | folded | literal | slot | injected | template | element | described =>
    exact fun d hd => List.mem_singleton.1 hd ▸ hself
  | unary hx | field hx =>
    intro d hd
    obtain rfl | hd := List.mem_cons.1 hd
    · exact hself
    · exact (Expr.compile_parts hx d hd).mono fun v hv => by simp [Expr.visits, hv]
  | binary hx hy | index hx hy =>
    intro d hd
    simp only [Code.parts, List.mem_cons, List.mem_append] at hd
    obtain rfl | hd | hd := hd
    · exact hself
    · exact (Expr.compile_parts hx d hd).mono fun v hv => by simp [Expr.visits, hv]
    · have hy := Expr.compile_parts hy d hd
      rw [(IsQuiet.expr _ _ _ _ hx).scopes] at hy
      exact hy.mono fun v hv => by simp [Expr.visits, hv]
  | cond hx hy hz =>
    have hυ := (IsQuiet.expr _ _ _ _ hx).scopes
    intro d hd
    simp only [Code.parts, List.mem_cons, List.mem_append] at hd
    obtain rfl | (hd | hd) | hd := hd
    · exact hself
    · exact (Expr.compile_parts hx d hd).mono fun v hv => by simp [Expr.visits, hv]
    · have hy := Expr.compile_parts hy d hd
      rw [hυ] at hy
      exact hy.mono fun v hv => by simp [Expr.visits, hv]
    · have hz := Expr.compile_parts hz d hd
      rw [(IsQuiet.expr _ _ _ _ hy).scopes.trans hυ] at hz
      exact hz.mono fun v hv => by simp [Expr.visits, hv]
  | list hcs | builtin hcs =>
    intro d hd
    obtain rfl | hd := List.mem_cons.1 hd
    · exact hself
    · obtain ⟨c, hc, hd⟩ := Code.exists_of_mem_partsAll hd
      exact (Expr.compileAll_parts hcs c hc d hd).mono fun v hv => by simp [Expr.visits, hv]
  | record hcs =>
    intro d hd
    obtain rfl | hd := List.mem_cons.1 hd
    · exact hself
    · obtain ⟨c, hc, hd⟩ := Code.exists_of_mem_partsFields hd
      exact (Expr.compileFields_parts hcs c hc d hd).mono fun v hv => by simp [Expr.visits, hv]

theorem Expr.compileAll_parts : {es : List Expr} → {cs : List Code} → {σ τ : CompileState} →
    (Expr.compileAll es).Yields σ cs τ →
    ∀ c ∈ cs, ∀ d ∈ c.parts, d.StemsFrom σ.scopes (Expr.visitsAll es)
  | [], cs, σ, τ, h => by
    obtain ⟨rfl, -⟩ := Expr.compileAll_nil h
    exact fun _ hc => by cases hc
  | e :: es, cs, σ, τ, h => by
    obtain ⟨x, υ, ys, hx, hy, rfl⟩ := Expr.compileAll_cons h
    intro c hc d hd
    cases hc with
    | head =>
      exact (Expr.compile_parts hx d hd).mono fun v hv => by simp [Expr.visitsAll, hv]
    | tail _ hc =>
      have hes := Expr.compileAll_parts hy c hc d hd
      rw [(IsQuiet.expr e _ _ _ hx).scopes] at hes
      exact hes.mono fun v hv => by simp [Expr.visitsAll, hv]

theorem Expr.compileFields_parts : {fs : List (String × Expr)} → {cs : List (String × Code)} →
    {σ τ : CompileState} → (Expr.compileFields fs).Yields σ cs τ →
    ∀ f ∈ cs, ∀ d ∈ f.2.parts, d.StemsFrom σ.scopes (Expr.visitsFields fs)
  | [], cs, σ, τ, h => by
    obtain ⟨rfl, -⟩ := Expr.compileFields_nil h
    exact fun _ hc => by cases hc
  | (k, e) :: fs, cs, σ, τ, h => by
    obtain ⟨x, υ, ys, hx, hy, rfl⟩ := Expr.compileFields_cons h
    intro f hf d hd
    cases hf with
    | head =>
      exact (Expr.compile_parts hx d hd).mono fun v hv => by simp [Expr.visitsFields, hv]
    | tail _ hf =>
      have hfs := Expr.compileFields_parts hy f hf d hd
      rw [(IsQuiet.expr e _ _ _ hx).scopes] at hfs
      exact hfs.mono fun v hv => by simp [Expr.visitsFields, hv]

end

def Code.LeafOf (s : Scopes) (e : Expr) : Code → Prop
  | .const v => v.IsPlain
  | .slot n => ∃ v : VarRef, e = .var v ∧ v.slot? s = some n
  | .injected n => e = .var (.injected n)
  | .template _ n => e = .template n
  | .element id name (some (_, table)) => e = .element id name (some table)
  | _ => True

variable {known : String → UInt64 → Prop} {Γ : Typing} {σ τ : CompileState}

theorem Expr.compile_leaf {e : Expr} {c : Code} (h : e.compile.Yields σ c τ) :
    c.LeafOf σ.scopes e := by
  cases Expr.compile_lowers h with
  | folded hv => exact Expr.fold?_isPlain hv
  | @literal l => cases l <;> trivial
  | slot hslot => exact ⟨_, rfl, hslot⟩
  | injected | template | described => rfl
  | _ => trivial

theorem Expr.compile_reads {e : Expr} {c : Code} (h : e.compile.Yields σ c τ)
    (hΓ : σ.scopes.Typed Γ) (hk : ∀ v ∈ e.visits, v.Known known) : c.Reads known Γ := by
  intro d hd
  obtain ⟨e, υ, _, h, hs, hsub⟩ := Expr.compile_parts h d hd
  have hleaf := Expr.compile_leaf h
  cases d with
  | const v => exact hleaf
  | slot n =>
    obtain ⟨v, -, hslot⟩ := hleaf
    exact v.typed_of_slot? hΓ (hs ▸ hslot)
  | element id name site =>
    cases site with
    | none => trivial
    | some site =>
      obtain rfl : e = .element id name (some site.2) := hleaf
      exact hk _ (hsub _ List.mem_cons_self)
  | _ => trivial

theorem Expr.compileAll_reads {es : List Expr} {cs : List Code}
    (h : (Expr.compileAll es).Yields σ cs τ) (hΓ : σ.scopes.Typed Γ)
    (hk : ∀ v ∈ Expr.visitsAll es, v.Known known) : ∀ c ∈ cs, c.Reads known Γ := by
  intro c hc d hd
  obtain ⟨e, υ, ω, he, hs, hsub⟩ := Expr.compileAll_parts h c hc d hd
  exact Expr.compile_reads he (hs ▸ hΓ) (fun v hv => hk v (hsub v hv)) d (Code.mem_parts d)

theorem Compile.paramsBase_reads {data : CallData} {base : ParamsBase}
    (h : (paramsBase data).Yields σ base τ) (hΓ : σ.scopes.Typed Γ)
    (hk : ∀ v ∈ data.visits, v.Known known) : ∀ c ∈ base.codes, c.Reads known Γ := by
  cases paramsBase_lowers h with
  | none | all => exact fun _ hd => by cases hd
  | expr hc => exact fun d hd => List.mem_singleton.1 hd ▸ Expr.compile_reads hc hΓ hk

theorem Compile.callee_reads {target : CallTarget} {callee : Callee}
    (h : (Compile.callee target).Yields σ callee τ) (hΓ : σ.scopes.Typed Γ)
    (hk : ∀ v ∈ target.visits, v.Known known) : ∀ c ∈ callee.codes, c.Reads known Γ := by
  cases callee_lowers h with
  | template | delegate => exact fun _ hd => by cases hd
  | variant hc => exact fun d hd => List.mem_singleton.1 hd ▸ Expr.compile_reads hc hΓ hk

end Reads

end ResumableTemplates
