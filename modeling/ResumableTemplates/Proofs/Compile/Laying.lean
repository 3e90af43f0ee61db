import ResumableTemplates.Proofs.Compile.Layout

/-! Every compiled fragment is laid out, from any typing that has what the fragment needs. What a
scope declares is forgotten at its end. -/
namespace ResumableTemplates

open CompileState (Grows)

structure Fragment.Lays (K : Plan) (f : Fragment) (σ : CompileState) (ops : List Op)
    (τ : CompileState) (Γ Δ : Typing) : Prop where
  le : Γ.Le Δ
  tied : Tied K τ.scopes Δ
  laid : Laid K σ.position Γ ops Δ
  same : f.IsClosed → Δ = Γ
  writes : ∀ op ∈ ops, ∀ n ∈ op.writes, σ.scopes.slots.size ≤ n ∨ f.out = .buffer n
  sources : ∀ as sources, f = .args as sources → ∀ arg ∈ sources, arg.2.Safe K.known Δ

def Fragment.CanLay (K : Plan) (f : Fragment) (σ : CompileState) (ops : List Op)
    (τ : CompileState) : Prop :=
  ∀ Γ, K.Has τ → Tied K σ.scopes Γ → f.Ready Γ → f.Known K.known → ∃ Δ, f.Lays K σ ops τ Γ Δ

section Writes

variable {out : Output} {size size' : Nat} {op : Op} {xs ys : List Op}

def Spares (size : Nat) (out : Output) (ops : List Op) : Prop :=
  ∀ op ∈ ops, ∀ n ∈ op.writes, size ≤ n ∨ out = .buffer n

theorem Spares.mono (h : Spares size' out xs) (hle : size ≤ size') : Spares size out xs :=
  fun op hop n hn => (h op hop n hn).imp (Nat.le_trans hle) id

theorem Spares.cons (hop : ∀ n ∈ op.writes, size ≤ n ∨ out = .buffer n) (h : Spares size out xs) :
    Spares size out (op :: xs) :=
  fun o ho => (List.mem_cons.1 ho).elim (fun ho => ho ▸ hop) (h o)

theorem Spares.append (h : Spares size out xs) (h' : Spares size out ys) :
    Spares size out (xs ++ ys) :=
  fun o ho => (List.mem_append.1 ho).elim (h o) (h' o)

theorem Spares.nil : Spares size out [] := fun _ ho => by cases ho

end Writes

section Lays

variable {K : Plan} {σ υ χ ψ τ : CompileState} {Γ Δ Θ : Typing} {f g : Fragment} {out : Output}
  {ops body rest : List Op}

theorem Tied.of_same (h : Tied K σ.scopes Γ) (hs : σ.Same τ) : Tied K τ.scopes Γ := hs.scopes ▸ h

theorem Holds.pointed (h : Holds K σ.scopes Γ) : Holds K σ.pointed.scopes Γ := h

theorem Tied.pointed (h : Tied K σ.scopes Γ) : Tied K σ.pointed.scopes Γ := h

theorem Tied.placed (h : Tied K σ.scopes Γ) : Tied K σ.placed.scopes Γ := h

namespace Fragment.Lays

theorem as (h : f.Lays K υ ops τ Γ Δ) (hs : σ.Same υ) (hout : f.out = g.out)
    (hclosed : g.IsClosed → f.IsClosed) (hargs : ∀ as sources, g ≠ .args as sources) :
    g.Lays K σ ops τ Γ Δ where
  le := h.le
  tied := h.tied
  laid := hs.position ▸ h.laid
  same hg := h.same (hclosed hg)
  writes := by
    rw [← hout, ← hs.scopes]
    exact h.writes
  sources as sources hg := absurd hg (hargs as sources)

theorem nil (hΓ : Tied K σ.scopes Γ) (hargs : ∀ as sources, f = .args as sources → sources = []) :
    f.Lays K σ [] σ Γ Γ where
  le := .refl Γ
  tied := hΓ
  laid := .nil hΓ.values
  same _ := rfl
  writes := Spares.nil
  sources as sources hf arg harg := by
    rw [hargs as sources hf] at harg
    cases harg

theorem writing {op : Op} (hfits : op.Fits K σ.position Γ)
    (hflows : op.flows σ.position Γ = [(σ.position + 1, Γ)]) (hτ : Tied K τ.scopes Γ)
    (hwrites : ∀ n ∈ op.writes, f.out = .buffer n) (hargs : ∀ as sources, f ≠ .args as sources) :
    f.Lays K σ [op] τ Γ Γ where
  le := .refl Γ
  tied := hτ
  laid := .op hfits hflows hτ.values hτ.values
  same _ := rfl
  writes := Spares.nil.cons fun n hn => .inr (hwrites n hn)
  sources as sources hf := absurd hf (hargs as sources)

theorem append {xs ys : List Op} {k : Fragment} (h : f.Lays K σ xs υ Γ Δ)
    (hxs : Emits f σ xs υ) (h' : g.Lays K υ ys τ Δ Θ) (hf : f.out = k.out) (hg : g.out = k.out)
    (hclosed : ¬ k.IsClosed) (hargs : ∀ as sources, k ≠ .args as sources) :
    k.Lays K σ (xs ++ ys) τ Γ Θ where
  le := h.le.trans h'.le
  tied := h'.tied
  laid := .append h.laid (hxs.position ▸ h'.laid)
  same hk := absurd hk hclosed
  writes := Spares.append (hf ▸ h.writes) (Spares.mono (hg ▸ h'.writes) hxs.grows.size_le)
  sources as sources hk := absurd hk (hargs as sources)

theorem choice {test : Op} {b : List Node} (hs : σ.Same υ)
    (hbody : Emits (.scope (.block out "" b)) υ.pointed body χ) (hrest : Emits f χ.placed rest τ)
    (hK : K.Has υ.pointed) (hΓ : Tied K υ.scopes Γ) (hsafe : test.Safe K.known K.size Γ)
    (hpoint : test.point? = some υ.points.size) (hwrites : test.writes = [])
    (hflows : test.flows σ.position Γ = [(σ.position + 1, Γ), (χ.placed.position, Γ)])
    (h : (Fragment.scope (.block out "" b)).Lays K υ.pointed body χ Γ Γ)
    (h' : f.Lays K χ.placed rest τ Γ Γ) (hf : f.out = out) (hg : g.out = out)
    (hargs : ∀ as sources, g ≠ .args as sources) :
    g.Lays K σ (test :: (body ++ .jump τ.position :: rest)) τ Γ Γ where
  le := .refl Γ
  tied := h'.tied
  laid := by
    have hp := hs.position
    have hχ := hbody.position
    have hτ := hrest.position
    simp only [CompileState.placed, CompileState.pointed] at *
    have htarget : χ.position + 1 = σ.position + body.length + 2 := by omega
    have hlaid : Laid K (σ.position + 1) Γ body Γ := hp ▸ h.laid
    have hlaid' := h'.laid
    rw [htarget] at hflows hτ hlaid'
    rw [hτ]
    refine .branch (.pointed hΓ.toHolds hK hp hpoint hsafe fun n hn => ?_) hflows hlaid hlaid'
    rw [hwrites] at hn
    cases hn
  same _ := rfl
  writes := by
    have hsize : σ.scopes.slots.size ≤ υ.pointed.scopes.slots.size := (Grows.of_same hs).size_le
    rw [hg]
    refine Spares.cons (fun n hn => ?_) (Spares.append (Spares.mono h.writes hsize)
      (Spares.cons (fun n hn => (by cases hn))
        (Spares.mono (hf ▸ h'.writes) (Nat.le_trans hsize hbody.grows.size_le))))
    rw [hwrites] at hn
    cases hn
  sources as sources hk := absurd hk (hargs as sources)

end Fragment.Lays

namespace Fragment.CanLay

theorem as (h : f.CanLay K υ ops τ) (hs : σ.Same υ) (hready : ∀ Γ, g.Ready Γ → f.Ready Γ)
    (hknown : g.Known K.known → f.Known K.known) (hout : f.out = g.out)
    (hclosed : g.IsClosed → f.IsClosed) (hargs : ∀ as sources, g ≠ .args as sources) :
    g.CanLay K σ ops τ := by
  intro Γ hK hΓ hg hk
  obtain ⟨Δ, hΔ⟩ := h Γ hK (hΓ.of_same hs) (hready Γ hg) (hknown hk)
  exact ⟨Δ, hΔ.as hs hout hclosed hargs⟩

theorem append {xs ys : List Op} {k : Fragment} (h : f.CanLay K σ xs υ) (hxs : Emits f σ xs υ)
    (h' : g.CanLay K υ ys τ) (hys : υ.Grows τ) (hf : f.out = k.out) (hg : g.out = k.out)
    (hready : ∀ Γ, k.Ready Γ → f.Ready Γ ∧ ∀ Δ, Γ.Le Δ → g.Ready Δ)
    (hknown : k.Known K.known → f.Known K.known ∧ g.Known K.known) (hclosed : ¬ k.IsClosed)
    (hargs : ∀ as sources, k ≠ .args as sources) : k.CanLay K σ (xs ++ ys) τ := by
  intro Γ hK hΓ hk hkn
  obtain ⟨hfk, hgk⟩ := hknown hkn
  obtain ⟨hfr, hgr⟩ := hready Γ hk
  obtain ⟨Δ, hΔ⟩ := h Γ (hK.of_grows hys) hΓ hfr hfk
  obtain ⟨Θ, hΘ⟩ := h' Δ hK hΔ.tied (hgr Δ hΔ.le) hgk
  exact ⟨Θ, hΔ.append hxs hΘ hf hg hclosed hargs⟩

end Fragment.CanLay

theorem Op.Fits.store {e : Expr} {c : Code} {slot : Nat} {info : SlotInfo}
    {bound : List (String × Nat)} {forces : Bool} (hc : e.compile.Yields σ c υ)
    (ha : υ.scopes.Allocated slot info bound χ.scopes) (hp : χ.position = υ.position)
    (hkind : info.kind.isRematerialized = false) (hK : K.Has χ.pointed) (hΓ : Tied K σ.scopes Γ)
    (hknown : ∀ v ∈ e.visits, v.Known K.known) :
    (Op.store χ.points.size slot c forces).Fits K σ.position Γ ∧ slot = σ.scopes.slots.size := by
  have hs := Expr.compile_same hc
  have hnew : slot = σ.scopes.slots.size := hs.scopes ▸ ha.slot
  have hnext := ha.size
  have hslot := ha.slot
  have hsize : χ.scopes.slots.size ≤ K.size := hK.size
  refine ⟨.pointed ((hΓ.of_same hs).toHolds.allocated ha hkind) hK (hp.trans hs.position) rfl
    ⟨by omega, Expr.compile_reads hc hΓ.typed hknown⟩ fun n hn => ?_, hnew⟩
  rw [List.mem_singleton.1 hn, hnew]
  exact hΓ.sound.room

theorem Laid.captured {buffer dest : Nat} {label : String} {b : List Node} (kind : ContentKind)
    (hbuffer : (Compile.temporary label).Yields σ buffer υ)
    (hbody : Emits (.scope (.block (.buffer buffer) "" b)) υ.placed body χ)
    (h : (Fragment.scope (.block (.buffer buffer) "" b)).CanLay K υ.placed body χ) (hK : K.Has χ)
    (hΓ : Tied K σ.scopes Γ) (hknown : ∀ v ∈ Node.visitsAll b, v.Known K.known)
    (hdest : K.header ≤ dest) (hroom : dest < K.size)
    (hvalues : K.Values ((Γ.set buffer none).set dest (some .value))) :
    Laid K σ.position Γ (.beginCapture buffer :: (body ++ [.endCapture buffer dest kind]))
        ((Γ.set buffer none).set dest (some .value)) ∧
      χ.scopes.Sound K.header ∧ Spares υ.scopes.slots.size (.buffer buffer) body := by
  obtain ⟨ha, hυ⟩ := Compile.temporary_yields hbuffer
  have hpos := (Compile.temporary_grows hbuffer).2.1
  have hset : Tied K υ.scopes (Γ.set buffer (some .buffer)) := hΓ.temporary ha rfl _
  obtain ⟨Δ, hΔ⟩ := h _ hK hset.placed (Typing.set_same _ _ _) hknown
  obtain rfl := hΔ.same trivial
  have hslot := ha.slot
  have hheader : K.header ≤ buffer := hslot ▸ hΓ.sound.room
  have hlt : buffer < K.size := by
    have := ha.size
    have : υ.scopes.slots.size ≤ K.size := (hK.of_grows hbody.grows).size
    omega
  have hbegin : Laid K σ.position Γ [.beginCapture buffer] (Γ.set buffer (some .buffer)) :=
    .op (.placed rfl hlt fun n hn => List.mem_singleton.1 hn ▸ hheader) rfl hΓ.values hset.values
  have hend : Laid K χ.position (Γ.set buffer (some .buffer)) [.endCapture buffer dest kind]
      ((Γ.set buffer none).set dest (some .value)) := by
    refine .op (.placed rfl ⟨Typing.set_same _ _ _, hroom⟩ fun n hn => ?_) ?_ hset.values hvalues
    · simp only [Op.writes, List.mem_cons, List.not_mem_nil, or_false] at hn
      obtain rfl | rfl := hn
      · exact hheader
      · exact hdest
    · simp only [Op.flows, Typing.set_set]
  have hlaid : Laid K (σ.position + 1) (Γ.set buffer (some .buffer)) body
      (Γ.set buffer (some .buffer)) := hpos ▸ hΔ.laid
  have hχ : χ.position = σ.position + 1 + body.length := by
    rw [hbody.position, ← hpos]
    rfl
  have hall := Laid.append hbegin (.append hlaid (hχ ▸ hend))
  exact ⟨hall, hΔ.tied.sound, hΔ.writes⟩

end Lays

end ResumableTemplates
