import ResumableTemplates.Proofs.Compile.Blocks
import ResumableTemplates.Proofs.Compile.Patching
import ResumableTemplates.Proofs.Procedure.Rounds
import ResumableTemplates.Library
import Mathlib.Data.List.Forall2
import Mathlib.Logic.Relation

/-! Compiled templates have certificates. The header gets the first slots, each with a constant; what
is emitted for the body is laid out behind it. Main statement: a library of compiled units has a
certificate for each of its templates. -/
namespace ResumableTemplates

open Compile

section Header

variable {σ τ : CompileState}

theorem Compile.constant_yields {owner : String} {e : Expr} {v : Value}
    (h : (constant owner e).Yields σ v τ) : e.fold? = some v ∧ τ = σ := by
  obtain ⟨_, _, hget, hv⟩ := yields_bind.1 h
  obtain ⟨rfl, rfl⟩ := yields_get.1 hget
  unfold Expr.constant at hv
  split at hv
  · rename_i heq
    split at heq <;> cases heq
    obtain ⟨rfl, rfl⟩ := yields_pure.1 hv
    exact ⟨‹_›, rfl⟩
  · exact (not_yields_throw hv).elim

structure CompileState.Heads (σ : CompileState) (name : String) (kind : SlotKind) (slot : Nat)
    (τ : CompileState) : Prop where
  allocated : ∃ type, σ.scopes.Allocated slot ⟨name, type, kind⟩ [(name, slot)] τ.scopes
  isHeader : kind.isRematerialized = true
  same : τ = { σ with scopes := τ.scopes }

theorem Compile.declares {name : String} {type : VarType} {kind : SlotKind} {slot : Nat}
    (hkind : kind.isRematerialized = true)
    (h : (onScopes (·.declare name type kind) : Compile Nat).Yields σ slot τ) :
    σ.Heads name kind slot τ := by
  obtain ⟨s, hs, rfl⟩ := yields_onScopes.1 h
  exact ⟨⟨type, Scopes.declare_ok hs⟩, hkind, rfl⟩

def Param.slotKind (p : Param) : SlotKind := if p.isInjected then .injected else .param

theorem Compile.param_yields {p : Param} {b : ParamBinding} (h : (param p).Yields σ b τ) :
    σ.Heads p.name p.slotKind b.slot τ ∧ b.name = p.name ∧ b.isInjected = p.isInjected ∧
      b.default = p.default.bind Expr.fold? ∧ (p.default.bind Expr.fold? = none → p.default = none) := by
  have hkind : p.slotKind.isRematerialized = true := by
    unfold Param.slotKind
    split <;> rfl
  unfold Compile.param at h
  cases hd : p.default with
  | none =>
    rw [hd] at h
    obtain ⟨d, υ, hdef, hrest⟩ := yields_bind.1 h
    obtain ⟨slot, _, hslot, hb⟩ := yields_bind.1 hrest
    obtain ⟨rfl, rfl⟩ := yields_pure.1 hdef
    obtain ⟨rfl, rfl⟩ := yields_pure.1 hb
    exact ⟨declares hkind hslot, rfl, rfl, rfl, fun _ => rfl⟩
  | some e =>
    rw [hd] at h
    obtain ⟨d, υ, hdef, hrest⟩ := yields_bind.1 h
    obtain ⟨slot, _, hslot, hb⟩ := yields_bind.1 hrest
    obtain ⟨v, hv, rfl⟩ := yields_map.1 hdef
    obtain ⟨hfold, rfl⟩ := constant_yields hv
    obtain ⟨rfl, rfl⟩ := yields_pure.1 hb
    refine ⟨declares hkind hslot, rfl, rfl, hfold.symm, fun hn => ?_⟩
    rw [Option.bind_some, hfold] at hn
    cases hn

theorem Compile.stateVar_yields {v : StateVar} {b : StateBinding} (h : (stateVar v).Yields σ b τ) :
    σ.Heads v.name .state b.slot τ ∧ v.initial.fold? = some b.value := by
  obtain ⟨u, _, hu, hrest⟩ := yields_bind.1 h
  obtain ⟨slot, _, hslot, hb⟩ := yields_bind.1 hrest
  obtain ⟨hfold, rfl⟩ := constant_yields hu
  obtain ⟨rfl, rfl⟩ := yields_pure.1 hb
  exact ⟨declares rfl hslot, hfold⟩

def CompileState.Headers : CompileState → CompileState → Prop :=
  Relation.ReflTransGen fun σ τ => ∃ name kind slot, σ.Heads name kind slot τ

theorem CompileState.Headers.cons {name : String} {kind : SlotKind} {slot : Nat} {υ : CompileState}
    (h : σ.Heads name kind slot υ) (hτ : υ.Headers τ) : σ.Headers τ := .head ⟨_, _, _, h⟩ hτ

theorem Compile.params_headers {ps : List Param} {bs : List ParamBinding}
    (h : (params ps).Yields σ bs τ) : σ.Headers τ := by
  induction ps generalizing σ bs with
  | nil =>
    obtain ⟨-, rfl⟩ := yields_pure.1 h
    exact .refl
  | cons p ps ih =>
    obtain ⟨b, υ, hb, h⟩ := yields_bind.1 h
    obtain ⟨bs, _, hbs, h⟩ := yields_bind.1 h
    obtain ⟨-, rfl⟩ := yields_pure.1 h
    exact .cons (param_yields hb).1 (ih hbs)

theorem Compile.stateVars_headers {vs : List StateVar} {bs : List StateBinding}
    (h : (stateVars vs).Yields σ bs τ) : σ.Headers τ := by
  induction vs generalizing σ bs with
  | nil =>
    obtain ⟨-, rfl⟩ := yields_pure.1 h
    exact .refl
  | cons v vs ih =>
    obtain ⟨b, υ, hb, h⟩ := yields_bind.1 h
    obtain ⟨bs, _, hbs, h⟩ := yields_bind.1 h
    obtain ⟨-, rfl⟩ := yields_pure.1 h
    exact .cons (stateVar_yields hb).1 (ih hbs)

structure CompileState.Headed (σ : CompileState) : Prop where
  position : σ.position = 0
  points : σ.points = #[]
  kinds : ∀ (i : Nat) info, σ.scopes.slots[i]? = some info → info.kind.isRematerialized = true
  stack : ∃ top, σ.scopes.stack = [top] ∧ (∀ n ∈ top.owned, n < σ.scopes.slots.size) ∧
    ∀ b ∈ top.bindings, b.2 < σ.scopes.slots.size

theorem CompileState.Heads.headed {name : String} {kind : SlotKind} {slot : Nat}
    (h : σ.Heads name kind slot τ) (hσ : σ.Headed) :
    τ.Headed ∧ slot = σ.scopes.slots.size ∧ τ.scopes.slots.size = σ.scopes.slots.size + 1 := by
  obtain ⟨type, ha⟩ := h.allocated
  obtain ⟨top, hstack, howned, hbound⟩ := hσ.stack
  obtain ⟨top', rest, hs, hs'⟩ := ha.stack
  cases hstack.symm.trans hs
  have hsize := ha.size
  have hslot := ha.slot
  refine ⟨⟨by rw [h.same]; exact hσ.position, by rw [h.same]; exact hσ.points, fun i info hi => ?_,
    _, hs', fun n hn => ?_, fun b hb => ?_⟩, ha.slot, hsize⟩
  · rw [ha.slots, Array.getElem?_push] at hi
    split at hi
    · cases hi
      exact h.isHeader
    · exact hσ.kinds i info hi
  · obtain rfl | hn := List.mem_cons.1 hn
    · omega
    · have := howned n hn
      omega
  · obtain rfl | hb := List.mem_cons.1 hb
    · change slot < _
      omega
    · have := hbound b hb
      omega

theorem Compile.params_yields {ps : List Param} {bs : List ParamBinding}
    (h : (params ps).Yields σ bs τ) (hσ : σ.Headed) :
    τ.Headed ∧ τ.scopes.slots.size = σ.scopes.slots.size + bs.length ∧
      bs.map (·.slot) = List.range' σ.scopes.slots.size bs.length ∧
      ∀ b ∈ bs, ∀ v, b.default = some v → v.IsPlain := by
  induction ps generalizing σ bs with
  | nil =>
    obtain ⟨rfl, rfl⟩ := yields_pure.1 h
    exact ⟨hσ, rfl, rfl, fun _ hb => (by cases hb)⟩
  | cons p ps ih =>
    obtain ⟨b, υ, hb, h⟩ := yields_bind.1 h
    obtain ⟨bs, _, hbs, h⟩ := yields_bind.1 h
    obtain ⟨rfl, rfl⟩ := yields_pure.1 h
    obtain ⟨hheads, -, -, hdefault, -⟩ := param_yields hb
    obtain ⟨hυ, hslot, hsize⟩ := hheads.headed hσ
    obtain ⟨hτ, hlen, hslots, hplain⟩ := ih hbs hυ
    refine ⟨hτ, by rw [List.length_cons]; omega, ?_, fun b' hb' v hv => ?_⟩
    · rw [List.map_cons, hslots, hslot, hsize]
      rfl
    · cases hb' with
      | head =>
        rw [hdefault, Option.bind_eq_some_iff] at hv
        obtain ⟨e, -, hv⟩ := hv
        exact Expr.fold?_isPlain hv
      | tail _ hb' => exact hplain b' hb' v hv

theorem Compile.stateVars_yields {vs : List StateVar} {bs : List StateBinding}
    (h : (stateVars vs).Yields σ bs τ) (hσ : σ.Headed) :
    τ.Headed ∧ τ.scopes.slots.size = σ.scopes.slots.size + bs.length ∧
      bs.map (·.slot) = List.range' σ.scopes.slots.size bs.length ∧ ∀ b ∈ bs, b.value.IsPlain := by
  induction vs generalizing σ bs with
  | nil =>
    obtain ⟨rfl, rfl⟩ := yields_pure.1 h
    exact ⟨hσ, rfl, rfl, fun _ hb => (by cases hb)⟩
  | cons v vs ih =>
    obtain ⟨b, υ, hb, h⟩ := yields_bind.1 h
    obtain ⟨bs, _, hbs, h⟩ := yields_bind.1 h
    obtain ⟨rfl, rfl⟩ := yields_pure.1 h
    obtain ⟨hheads, hvalue⟩ := stateVar_yields hb
    obtain ⟨hυ, hslot, hsize⟩ := hheads.headed hσ
    obtain ⟨hτ, hlen, hslots, hplain⟩ := ih hbs hυ
    refine ⟨hτ, by rw [List.length_cons]; omega, ?_, fun b' hb' => ?_⟩
    · rw [List.map_cons, hslots, hslot, hsize]
      rfl
    · cases hb' with
      | head => exact Expr.fold?_isPlain hvalue
      | tail _ hb' => exact hplain b' hb'

theorem CompileState.Headed.tied (h : σ.Headed) {K : Plan} (hheader : K.header = σ.scopes.slots.size)
    {Γ : Typing} (hΓ : ∀ n, Γ n = if n < K.header then some .value else none) : Tied K σ.scopes Γ := by
  obtain ⟨top, hstack, howned, hbound⟩ := h.stack
  refine ⟨⟨⟨fun sc hsc n hn => ?_, fun n info hi => ?_, Nat.le_of_eq hheader⟩, fun n type hn => ?_⟩,
    fun sc hsc b hb => ?_⟩
  · rw [hstack, List.mem_singleton] at hsc
    exact howned n (hsc ▸ hn)
  · rw [hheader]
    exact ⟨fun _ => (Array.getElem?_eq_some_iff.1 hi).1, fun _ => h.kinds n info hi⟩
  · rw [hΓ] at hn
    split at hn
    · cases hn
      exact .inl ⟨‹_›, rfl⟩
    · cases hn
  · rw [hstack, List.mem_singleton] at hsc
    rw [hΓ, hheader, if_pos (hbound b (hsc ▸ hb))]

end Header

theorem Compile.finish_yields {header : UInt32} {σ τ : CompileState} {u : Unit}
    (h : (finish header).Yields σ u τ) : ∃ stack, τ = σ.left stack := by
  obtain ⟨_, υ, hexit, hdepth⟩ := yields_bind.1 h
  obtain ⟨_, _, hget, hτ⟩ := yields_bind.1 hdepth
  obtain ⟨s, hs, rfl⟩ := yields_onScopes.1 hexit
  obtain ⟨rfl, rfl⟩ := yields_get.1 hget
  cases hx : σ.scopes.exit header with
  | error e =>
    rw [hx] at hs
    cases hs
  | ok s' =>
    obtain ⟨top, rest, -, rfl⟩ := Scopes.exit_ok hx
    rw [hx] at hs
    cases hs
    split at hτ
    · exact (not_yields_contradiction hτ).elim
    · exact ⟨rest, (yields_pure.1 hτ).2⟩

def Template.start (t : Template) : CompileState := (CompileState.of (.empty t.name)).entered

theorem Template.start_headed (t : Template) : t.start.Headed :=
  ⟨rfl, rfl, fun i info hi => (by cases hi),
    _, rfl, fun _ hn => (by cases hn), fun _ hb => (by cases hb)⟩

structure Template.Parts (t : Template) (p : Procedure) (calls : Array (Nat × String))
    (υ χ ψ : CompileState) : Prop where
  params : (Compile.params t.params).Yields t.start p.params υ
  state : (Compile.stateVars t.state).Yields υ p.state χ
  body : Emits (.block .sink "" t.body) χ p.ops.toList ψ
  points : p.points = ψ.points
  layout : p.layout = ψ.scopes.slots
  calls : calls = ψ.calls

theorem Compile.procedure_yields {joins : Bool} {t : Template} {p : Procedure} {τ : CompileState}
    (h : (procedure joins t).Yields (.of (.empty t.name)) p τ) :
    ∃ υ χ ψ, t.Parts p τ.calls υ χ ψ := by
  obtain ⟨header, σ, henter, h₁⟩ := yields_bind.1 h
  obtain ⟨ps, υ, hps, h₂⟩ := yields_bind.1 h₁
  obtain ⟨vs, χ, hvs, h₃⟩ := yields_bind.1 h₂
  obtain ⟨ops, ψ, hops, h₄⟩ := yields_bind.1 h₃
  obtain ⟨_, ω, hfinish, h₅⟩ := yields_bind.1 h₄
  obtain ⟨_, _, hget, hp⟩ := yields_bind.1 h₅
  obtain ⟨stack, rfl⟩ := finish_yields hfinish
  obtain ⟨rfl, rfl⟩ := yields_get.1 hget
  obtain ⟨rfl, rfl⟩ := yields_pure.1 hp
  obtain ⟨s, hs, rfl⟩ := yields_onScopes.1 henter
  cases hs
  exact ⟨υ, χ, ψ, hps, hvs, emits_block t.body .sink "" _ _ _ hops, rfl, rfl, rfl⟩

section Certificates

variable {joins : Bool} {t : Template} {c : CompiledTemplate} {known : String → UInt64 → Prop}

/-- A compiled template has the parts of its source. -/
theorem Template.compile_ok (h : t.compile joins = .ok c) : c.name = t.name ∧
    ∃ υ χ ψ calls, t.Parts c.procedure calls υ χ ψ ∧ c.calls = calls.toList := by
  rw [compile_eq] at h
  cases hrun : (procedure joins t).run (.of (.empty t.name)) with
  | mk r σ =>
    cases r with
    | error e =>
      rw [hrun] at h
      cases h
    | ok p =>
      rw [hrun] at h
      cases h
      obtain ⟨υ, χ, ψ, hparts⟩ := procedure_yields hrun
      exact ⟨rfl, υ, χ, ψ, _, hparts, rfl⟩

theorem Template.Parts.header {p : Procedure} {calls : Array (Nat × String)} {υ χ ψ : CompileState}
    (h : t.Parts p calls υ χ ψ) : χ.Headed ∧ p.header = χ.scopes.slots.size := by
  obtain ⟨hυ, hsize, -, -⟩ := params_yields h.params t.start_headed
  obtain ⟨hχ, hsize', -, -⟩ := stateVars_yields h.state hυ
  refine ⟨hχ, ?_⟩
  rw [hsize', hsize, show t.start.scopes.slots.size = 0 from rfl, Nat.zero_add]
  rfl

theorem Template.Parts.laid {p : Procedure} {calls : Array (Nat × String)} {υ χ ψ : CompileState}
    (h : t.Parts p calls υ χ ψ) (hknown : ∀ v ∈ Node.visitsAll t.body, v.Known known) :
    ∃ Δ, Laid ⟨known, p.header, p.layout.size, p.points⟩ 0 p.filled p.ops.toList Δ := by
  obtain ⟨hχ, hheader⟩ := h.header
  obtain ⟨Δ, hΔ⟩ := h.body.canLay (K := ⟨known, p.header, p.layout.size, p.points⟩) p.filled
    ⟨fun i e hi => h.points ▸ hi, Nat.le_of_eq (h.layout ▸ rfl)⟩
    (hχ.tied hheader fun _ => rfl) trivial hknown
  exact ⟨Δ, hχ.position ▸ hΔ.laid⟩

/-- Compiled templates have certificates, and they end. -/
theorem Template.compile_flow (h : t.compile joins = .ok c)
    (hknown : ∀ v ∈ Node.visitsAll t.body, v.Known known) :
    (∃ notes, Flow known c notes) ∧ c.Ends := by
  obtain ⟨-, υ, χ, ψ, calls, hparts, -⟩ := compile_ok h
  obtain ⟨Δ, hlaid⟩ := hparts.laid hknown
  obtain ⟨hυ, hsize, hslots, hdefaults⟩ := params_yields hparts.params t.start_headed
  obtain ⟨hχ, hsize', hslots', hstate⟩ := stateVars_yields hparts.state hυ
  refine ⟨hlaid.exists_flow rfl rfl rfl ?_ ?_ hdefaults hstate, hlaid.ends⟩
  · have hstart : t.start.scopes.slots.size = 0 := rfl
    rw [hslots, hslots', hsize, hstart, List.range_eq_range', List.range'_append_1]
    rfl
  · rw [hparts.layout, hparts.header.2]
    exact hparts.body.grows.size_le

theorem Template.compile_ranked (h : t.compile joins = .ok c) (longest : Nat) :
    ∃ rank, Ranked longest 0 c.procedure.ops.toList rank := by
  obtain ⟨-, υ, χ, ψ, calls, hparts, -⟩ := compile_ok h
  obtain ⟨Δ, hlaid⟩ := hparts.laid fun v _ => v.known_true
  exact hlaid.exists_rank longest

end Certificates

theorem exists_of_forall₂_left {R : α → β → Prop} {xs : List α} {ys : List β} {x : α}
    (h : List.Forall₂ R xs ys) (hx : x ∈ xs) : ∃ y ∈ ys, R x y := by
  induction h with
  | nil => cases hx
  | cons hxy _ ih =>
    cases hx with
    | head => exact ⟨_, List.mem_cons_self, hxy⟩
    | tail _ hx =>
      obtain ⟨y, hy, hxy⟩ := ih hx
      exact ⟨y, List.mem_cons_of_mem _ hy, hxy⟩

section Units

variable {joins : Bool} {o : CompileOptions} {files : List TemplateFile}
  {tables : Table String ElementTable} {u : CompiledUnit}

def TemplateFile.templatesOf (files : List TemplateFile) : List (TemplateFile × Template) :=
  files.flatMap fun f => f.templates.map (f, ·)

/-- Holds of a source and what it is compiled to. -/
def CompiledUnit.Compiles (joins : Bool) (source : TemplateFile × Template)
    (c : CompiledTemplate × Metadata) : Prop :=
  source.2.compile joins = .ok c.1 ∧ c.2 = .of source.1 source.2

theorem CompiledUnit.compileAll_ok {seen : List String} {sources : List (TemplateFile × Template)}
    {cs : List (CompiledTemplate × Metadata)} (h : compileAll joins seen sources = .ok cs) :
    List.Forall₂ (Compiles joins) sources cs := by
  induction sources generalizing seen cs with
  | nil =>
    cases h
    exact .nil
  | cons source sources ih =>
    obtain ⟨f, t⟩ := source
    rw [compileAll] at h
    split at h
    · cases h
    · obtain ⟨c, hc, h⟩ := Except.bind_ok_iff.1 h
      obtain ⟨cs, hcs, h⟩ := Except.bind_ok_iff.1 h
      cases h
      exact .cons ⟨hc, rfl⟩ (ih hcs)

theorem CompiledUnit.compile_ok (h : compile o files tables = .ok u) :
    ∃ cs, List.Forall₂ (Compiles o.joins) (TemplateFile.templatesOf files) cs ∧
      u.templates = cs.map (·.1) ∧ u.metadata = cs.map (·.2) ∧ u.tables = tables := by
  obtain ⟨cs, hcs, h⟩ := Except.bind_ok_iff.1 h
  cases h
  exact ⟨cs, compileAll_ok hcs, rfl, rfl, rfl⟩

theorem CompiledUnit.source_of_template? (h : compile o files tables = .ok u) {name : String}
    {c : CompiledTemplate} (hc : u.template? name = some c) :
    ∃ f ∈ files, ∃ t ∈ f.templates, t.compile o.joins = .ok c := by
  obtain ⟨cs, hcs, htemplates, -, -⟩ := compile_ok h
  have hmem := List.mem_of_find?_eq_some hc
  rw [htemplates, List.mem_map] at hmem
  obtain ⟨d, hd, rfl⟩ := hmem
  obtain ⟨_, hs, hcompiles, -⟩ := exists_of_forall₂_left (List.Forall₂.flip hcs) hd
  obtain ⟨f, hf, hs⟩ := List.mem_flatMap.1 hs
  obtain ⟨t, ht, rfl⟩ := List.mem_map.1 hs
  exact ⟨f, hf, t, ht, hcompiles⟩

theorem CompiledUnit.compile_single {f : TemplateFile} {t : Template} {c : CompiledTemplate}
    (hf : f.templates = [t]) (hc : t.compile o.joins = .ok c) :
    compile o [f] tables = .ok ⟨[c], [.of f t], tables⟩ := by
  simp only [compile, compileAll, List.flatMap_cons, List.flatMap_nil, hf, List.map_cons,
    List.map_nil, List.append_nil, List.not_mem_nil, if_false, hc]
  rfl

end Units

namespace Library

/-- A library of compiled units has certificates, for the elements that their sources describe. -/
theorem exists_certificate {lib : Library} {known : Nat → String → UInt64 → Prop}
    (h : ∀ i u, lib.units[i]? = some u → ∃ o files tables,
      CompiledUnit.compile o files tables = .ok u ∧
        ∀ f ∈ files, ∀ t ∈ f.templates, ∀ v ∈ t.visits, v.Known (known i)) :
    Nonempty (Certificate lib known) := by
  have hflow : ∀ i name c, lib.compiled? i name = some c →
      (∃ notes, Flow (known i) c notes) ∧ c.Ends := by
    intro i name c hc
    obtain ⟨u, hu, hc⟩ := Option.bind_eq_some_iff.1 hc
    obtain ⟨o, files, tables, hcompile, hknown⟩ := h i u hu
    obtain ⟨f, hf, t, ht, htc⟩ := CompiledUnit.source_of_template? hcompile hc
    exact Template.compile_flow htc fun v hv => hknown f hf t ht v (List.mem_append_right _ hv)
  have hnotes : ∀ i name, ∃ notes, ∀ c, lib.compiled? i name = some c → Flow (known i) c notes := by
    intro i name
    cases hc : lib.compiled? i name with
    | none => exact ⟨fun _ _ => none, fun _ h => (by cases h)⟩
    | some c =>
      obtain ⟨notes, hn⟩ := (hflow i name c hc).1
      exact ⟨notes, fun d hd => Option.some.inj hd ▸ hn⟩
  choose notes hn using hnotes
  exact ⟨⟨notes, hn, fun i name c hc => (hflow i name c hc).2⟩⟩

/-- Holds of the libraries whose units all are what the compiler makes of some files. -/
def IsCompiled (lib : Library) : Prop :=
  ∀ u ∈ lib.units, ∃ o files tables, CompiledUnit.compile o files tables = .ok u

theorem IsCompiled.certificate {lib : Library} (h : lib.IsCompiled) :
    Nonempty (Certificate lib fun _ _ _ => True) :=
  exists_certificate fun i u hu => by
    obtain ⟨o, files, tables, hc⟩ := h u (Array.mem_of_getElem? hu)
    exact ⟨o, files, tables, hc, fun f _ t _ v _ => v.known_true⟩

theorem IsCompiled.ranked {lib : Library} (h : lib.IsCompiled) {unit : Nat} {name : String}
    {c : CompiledTemplate} (hc : lib.compiled? unit name = some c) (longest : Nat) :
    ∃ rank, Ranked longest 0 c.procedure.ops.toList rank := by
  obtain ⟨u, hu, hc⟩ := Option.bind_eq_some_iff.1 hc
  obtain ⟨o, files, tables, hcompile⟩ := h u (Array.mem_of_getElem? hu)
  obtain ⟨f, -, t, -, htc⟩ := CompiledUnit.source_of_template? hcompile hc
  exact Template.compile_ranked htc longest

end Library

def TemplateFile.letter : TemplateFile :=
  ⟨"", [], [{ Template.empty "letter" with
    params := [.required "name"], body := [.text "dear ", .print (.var (.param "name"))] }]⟩

def CompiledUnit.letter : CompiledUnit where
  templates := [⟨"letter", false, .html,
    ⟨#[.text 0 .sink "dear ", .print 1 .sink (.slot 0)], #[⟨0, []⟩, ⟨1, []⟩],
      #[⟨"name", .unknown, .param⟩], [⟨0, "name", false, none⟩], []⟩, []⟩]
  metadata := TemplateFile.letter.templates.map (Metadata.of .letter)
  tables := .empty

def Library.letter : Library := ⟨#[.letter], #[], []⟩

theorem CompiledUnit.letter_compiled : compile {} [.letter] .empty = .ok letter := by
  refine compile_single rfl ?_
  rw [Template.compile_eq]
  rfl

theorem Library.letter_isCompiled : letter.IsCompiled := by
  intro u hu
  obtain rfl : u = .letter := by simpa [letter] using hu
  exact ⟨{}, [.letter], .empty, CompiledUnit.letter_compiled⟩

end ResumableTemplates
