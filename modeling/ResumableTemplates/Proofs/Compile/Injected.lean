import ResumableTemplates.Proofs.Compile.Origins

/-! What compiled templates read of the injected record. Every injected parameter is copied to a slot of
the header at each entry, but only code reads such a slot, and only where the source names the parameter.
So no op tells two records apart that read the same wherever the source looks. -/
namespace ResumableTemplates

open CompileState

def Procedure.Hides (p : Procedure) (i j : Record) (n : Nat) : Prop :=
  ∃ b ∈ p.params, b.isInjected = true ∧ b.slot = n ∧ Record.read i b.name ≠ Record.read j b.name

def Code.IsClear (hidden : Nat → Prop) (i j : Record) : Code → Prop
  | .slot n => ¬ hidden n
  | .injected name => Record.read j name = Record.read i name
  | _ => True

def Output.slots : Output → List Nat
  | .sink => []
  | .buffer n => [n]

def Op.slots : Op → List Nat
  | .text _ out _ | .print _ out _ => out.slots
  | .branchUnlessMatch _ subject _ _ => [subject]
  | .forNext list cursor .. => [list, cursor]
  | .endCapture buffer .. => [buffer]
  | .call _ out _ _ args => out.slots ++ args.flatMap (·.2.slots)
  | .store .. | .branchUnless .. | .jump _ | .forInit .. | .beginCapture _ => []

/-- Holds of an op that reads nothing that two records differ in. -/
structure Op.Clear (hidden : Nat → Prop) (i j : Record) (op : Op) : Prop where
  codes : ∀ c ∈ op.codes, ∀ d ∈ c.parts, d.IsClear hidden i j
  slots : ∀ n ∈ op.slots, ¬ hidden n

section Header

variable {σ τ : CompileState}

theorem CompileState.Heads.grows {name : String} {kind : SlotKind} {slot : Nat}
    (h : σ.Heads name kind slot τ) : σ.Grows τ := by
  obtain ⟨type, ha⟩ := h.allocated
  have := Grows.allocated ha
  rwa [← h.same] at this

theorem CompileState.Heads.slot {name : String} {kind : SlotKind} {slot : Nat}
    (h : σ.Heads name kind slot τ) :
    ∃ info, τ.scopes.slots[slot]? = some info ∧ info.name = name ∧ info.kind = kind := by
  obtain ⟨type, ha⟩ := h.allocated
  exact ⟨⟨name, type, kind⟩, by rw [ha.slots, ha.slot, Array.getElem?_push_size], rfl, rfl⟩

theorem CompileState.Headers.grows (h : σ.Headers τ) : σ.Grows τ := by
  induction h with
  | refl => exact .refl
  | tail _ h ih =>
    obtain ⟨name, kind, slot, h⟩ := h
    exact ih.trans h.grows

theorem Compile.params_declare {ps : List Param} {bs : List ParamBinding}
    (h : (params ps).Yields σ bs τ) : ∀ b ∈ bs, ∃ p ∈ ps, b.name = p.name ∧
      b.isInjected = p.isInjected ∧ ∃ info, τ.scopes.slots[b.slot]? = some info ∧
        info.name = p.name ∧ info.kind = p.slotKind := by
  induction ps generalizing σ bs with
  | nil =>
    obtain ⟨rfl, rfl⟩ := yields_pure.1 h
    exact fun _ hb => nomatch hb
  | cons p ps ih =>
    obtain ⟨b, υ, hb, h⟩ := yields_bind.1 h
    obtain ⟨bs, _, hbs, h⟩ := yields_bind.1 h
    obtain ⟨rfl, rfl⟩ := yields_pure.1 h
    obtain ⟨hheads, hname, hinjected, -⟩ := param_yields hb
    intro b' hb'
    cases hb' with
    | head =>
      obtain ⟨info, hslot, hinfo⟩ := hheads.slot
      have hgrows := (params_headers hbs).grows
      exact ⟨p, List.mem_cons_self, hname, hinjected, info, hgrows.slots _ _ hslot, hinfo⟩
    | tail _ hb' =>
      obtain ⟨q, hq, hdeclares⟩ := ih hbs b' hb'
      exact ⟨q, List.mem_cons_of_mem _ hq, hdeclares⟩

end Header

section Names

variable {s : Scopes} {n : Nat}

theorem Scopes.Named.exists_slot (hs : s.Named) {name : String} {kind : SlotKind}
    (h : s.lookupKind? name kind = some n) :
    ∃ info, s.slots[n]? = some info ∧ info.name = name ∧ info.kind = kind := by
  obtain ⟨hk, sc, hsc, hb⟩ := Scopes.exists_of_lookupKind? h
  obtain ⟨info, hinfo, hname⟩ := Option.map_eq_some_iff.1 (hs sc hsc _ hb)
  rw [Scopes.kindOf?, hinfo] at hk
  exact ⟨info, hinfo, hname, Option.some.inj hk⟩

theorem VarRef.names_slot (hs : s.Named) {v : VarRef} (h : v.slot? s = some n) :
    ∃ info, s.slots[n]? = some info ∧
      (info.kind = .injected → v = .param info.name ∨ v = .injected info.name) := by
  cases v with
  | param name =>
    obtain h | ⟨-, h⟩ := Option.or_eq_some_iff.1 h <;> obtain ⟨info, hn, rfl, -⟩ := hs.exists_slot h
    · exact ⟨info, hn, fun _ => .inl rfl⟩
    · exact ⟨info, hn, fun _ => .inl rfl⟩
  | state name | bound name =>
    obtain ⟨info, hn, -, hkind⟩ := hs.exists_slot h
    exact ⟨info, hn, fun hinjected => by cases hkind.symm.trans hinjected⟩
  | injected name =>
    obtain ⟨info, hn, rfl, -⟩ := hs.exists_slot h
    exact ⟨info, hn, fun _ => .inr rfl⟩

end Names

section Safety

variable {known : String → UInt64 → Prop} {t : CompiledTemplate} {notes : Nat → Typing} {i j : Record}

theorem Output.Safe.slots {Γ : Typing} {out : Output} (h : out.Safe Γ) :
    ∀ n ∈ out.slots, Γ n = some .buffer := by
  cases out with
  | sink => exact fun _ hn => by cases hn
  | buffer m => exact fun n hn => List.mem_singleton.1 hn ▸ h

theorem Op.Safe.slots {size : Nat} {Γ : Typing} {op : Op} (h : op.Safe known size Γ) :
    ∀ n ∈ op.slots, n ∈ op.contents ∨ ∃ type, Γ n = some type ∧ type ≠ .value := by
  intro n hn
  cases op with
  | text point out s => exact .inr ⟨_, Output.Safe.slots h n hn, fun he => by cases he⟩
  | print point out c => exact .inr ⟨_, Output.Safe.slots h.1 n hn, fun he => by cases he⟩
  | branchUnlessMatch point subject cs target =>
    exact .inr ⟨_, List.mem_singleton.1 hn ▸ h.1, fun he => by cases he⟩
  | forNext list cursor item index exit =>
    simp only [Op.slots, List.mem_cons, List.not_mem_nil, or_false] at hn
    obtain rfl | rfl := hn
    · exact .inr ⟨_, h.1, fun he => by cases he⟩
    · exact .inr ⟨_, h.2.1, fun he => by cases he⟩
  | endCapture buffer dest kind =>
    exact .inr ⟨_, List.mem_singleton.1 hn ▸ h.1, fun he => by cases he⟩
  | call point out callee base args =>
    obtain hn | hn := List.mem_append.1 hn
    · exact .inr ⟨_, Output.Safe.slots h.1 n hn, fun he => by cases he⟩
    · exact .inl hn
  | _ => cases hn

theorem Flow.not_hides (hf : Flow known t notes) {n : Nat} (hn : t.procedure.header ≤ n) :
    ¬ t.procedure.Hides i j n := by
  rintro ⟨b, hb, -, rfl, -⟩
  have := hf.slot_lt (List.mem_append_left _ (List.mem_map_of_mem hb))
  omega

end Safety

section Templates

variable {joins : Bool} {t : Template} {c : CompiledTemplate} {i j : Record}

/-- A hidden slot is that of a declared parameter, in whose name two records differ. -/
theorem Template.compile_hides (h : t.compile joins = .ok c) {n : Nat} (hn : c.procedure.Hides i j n) :
    ∃ info, c.procedure.layout[n]? = some info ∧ info.kind = .injected ∧
      t.declaresInjected info.name = true ∧ Record.read i info.name ≠ Record.read j info.name := by
  obtain ⟨b, hb, hinjected, rfl, hne⟩ := hn
  obtain ⟨-, υ, χ, ψ, calls, hparts, -⟩ := compile_ok h
  obtain ⟨p, hp, hname, hpi, info, hslot, hinfo, hkind⟩ :=
    Compile.params_declare hparts.params b hb
  have hgrows := (Compile.stateVars_headers hparts.state).grows.trans hparts.body.grows
  have hp' : p.isInjected = true := hpi ▸ hinjected
  refine ⟨info, hparts.layout ▸ hgrows.slots _ _ hslot, ?_, ?_, ?_⟩
  · rw [hkind, Param.slotKind, if_pos hp']
  · rw [hinfo]
    exact List.any_eq_true.2 ⟨p, hp, by simp [hp']⟩
  · rwa [hinfo, ← hname]

theorem Code.Comes.isClear (h : t.compile joins = .ok c) {code : Code}
    (hcode : code.Comes c.procedure.layout (· ∈ t.visits))
    (hij : ∀ n ∈ t.visits.filterMap t.injectedRead?, Record.read j n = Record.read i n) :
    ∀ d ∈ code.parts, d.IsClear (c.procedure.Hides i j) i j := by
  intro d hd
  obtain ⟨e, σ, τ, hyields, hnamed, hwithin, hvisits⟩ := hcode
  obtain ⟨e', υ, ω, hyields', hscopes, hsub⟩ := Expr.compile_parts hyields d hd
  have hleaf := Expr.compile_leaf hyields'
  have hread : ∀ v, e' = .var v → ∀ name, t.injectedRead? (.expr (.var v)) = some name →
      Record.read j name = Record.read i name := by
    rintro v rfl name hname
    exact hij _ (List.mem_filterMap.2 ⟨_, hvisits _ (hsub _ List.mem_cons_self), hname⟩)
  cases d with
  | slot n =>
    intro hhides
    obtain ⟨info, hslot, hkind, hdeclares, hne⟩ := Template.compile_hides h hhides
    obtain ⟨v, hv, hn⟩ := hleaf
    obtain ⟨info', hinfo, hnames⟩ := VarRef.names_slot hnamed (hscopes ▸ hn)
    cases (hwithin _ _ hinfo).symm.trans hslot
    refine hne (hread v hv info.name ?_).symm
    obtain rfl | rfl := hnames hkind
    · simp [Template.injectedRead?, hdeclares]
    · rfl
  | injected name => exact hread _ hleaf name rfl
  | _ => trivial

/-- The ops of a compiled template read nothing that two records differ in, unless its source does. -/
theorem Template.compile_clear (h : t.compile joins = .ok c)
    (hij : ∀ n ∈ t.visits.filterMap t.injectedRead?, Record.read j n = Record.read i n) :
    ∀ op ∈ c.procedure.ops, op.Clear (c.procedure.Hides i j) i j := by
  obtain ⟨⟨notes, hflow⟩, -⟩ := compile_flow h fun v _ => v.known_true
  intro op hop
  have hcomes := compile_comes h op hop
  refine ⟨fun code hcode => (hcomes.codes code hcode).isClear h hij, fun n hn hhides => ?_⟩
  obtain ⟨p, hp, rfl⟩ := Array.getElem_of_mem hop
  obtain hn | ⟨type, htype, hne⟩ := (hflow.safe p _ (Array.getElem?_eq_getElem hp)).slots n hn
  · obtain ⟨info, hslot, hkind⟩ := hcomes.contents n hn
    obtain ⟨info', hslot', hkind', -⟩ := compile_hides h hhides
    cases hslot.symm.trans hslot'
    cases hkind.symm.trans hkind'
  · exact hflow.not_hides (Nat.not_lt.1 fun hlt => hne (hflow.values p n type htype hlt)) hhides

/-- What is saved of a compiled template is no injected parameter. -/
theorem Template.compile_saves (h : t.compile joins = .ok c) {op : Op} (hop : op ∈ c.procedure.ops)
    {point : Nat} (hpoint : op.point? = some point) {e : ResumeEntry}
    (he : c.procedure.points[point]? = some e) : ∀ n ∈ e.live, ¬ c.procedure.Hides i j n := by
  obtain ⟨⟨notes, hflow⟩, -⟩ := compile_flow h fun v _ => v.known_true
  obtain ⟨p, hp, rfl⟩ := Array.getElem_of_mem hop
  obtain ⟨live, hlive, hbounds, -⟩ := hflow.points p _ point (Array.getElem?_eq_getElem hp) hpoint
  cases he.symm.trans hlive
  exact fun n hn => hflow.not_hides (hbounds n hn).1

end Templates

end ResumableTemplates
