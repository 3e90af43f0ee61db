import ResumableTemplates.Proofs.Compile.Advances
import ResumableTemplates.Proofs.Compile.Jumps

/-! Compiled ops are well formed. The table of resume points and the slots are charted along the steps
of the compilation, the ways of the ops are known once all of them stand, and the codes come from
expressions that were compiled where their names were in scope. Main statement: all that compiles, a
template or a body in any scopes, is well formed. -/
namespace ResumableTemplates

open Compile CompileState

/-- Holds of ops whose table is theirs, which lead forward but for the jumps back to the heads of
loops, and which mention no slot but those laid out. -/
structure WellFormed (ops : List Op) (points : Array ResumeEntry) (layout : Array SlotInfo) : Prop
    extends Tabled ops points layout where
  targets : ∀ (q : Nat) op t, ops[q]? = some op → t ∈ op.targets q →
    t ≤ ops.length ∧ (q < t ∨ op = .jump t)
  /-- A jump goes back if and only if it is the last op of a loop, and then to the loop's head. -/
  loops : ∀ q t : Nat, (ops[q]? = some (.jump t) ∧ t ≤ q) ↔
    ∃ list cursor item index, ops[t]? = some (.forNext list cursor item index (q + 1))
  codes : ∀ op ∈ ops, ∀ c ∈ op.codes, ∀ n, .slot n ∈ c.parts → n < layout.size

section Emits

variable {f : Fragment} {σ τ : CompileState} {ops : List Op} {layout : Array SlotInfo}

theorem Code.Comes.slot_lt {Q : Visit → Prop} {c : Code} (h : c.Comes layout Q) {n : Nat}
    (hn : .slot n ∈ c.parts) : n < layout.size := by
  obtain ⟨e, σ, τ, hc, hnamed, hwithin, -⟩ := h
  obtain ⟨e', σ', τ', hc', hs, -⟩ := Expr.compile_parts hc _ hn
  obtain ⟨v, -, hslot⟩ := Expr.compile_leaf hc'
  rw [hs] at hslot
  obtain ⟨info, hinfo, -⟩ := VarRef.names_slot hnamed hslot
  exact (Array.getElem?_eq_some_iff.1 (hwithin n info hinfo)).1

theorem Emits.wellFormed (h : Emits f σ ops τ) (hf : f.Fed σ) (hσ : σ.Charted []) :
    WellFormed ops τ.points τ.scopes.slots := by
  have hcharted : τ.Charted ops := hσ.advances (h.advances hf)
  have hrouted := h.routed
  rw [show σ.position = 0 from hσ.position, hcharted.position] at hrouted
  have hlayout : τ.Within τ.scopes.slots := fun _ _ hi => hi
  have hcomes := (h.comes (Q := fun _ => True) hf.named hlayout fun _ _ => trivial).2
  exact {
    toTabled := hcharted.tabled
    targets := fun q op t hop ht =>
      hrouted.targets op q (List.mem_zipIdx_iff_getElem?.2 hop) t ht
    loops := fun q t => by simpa only [List.mem_zipIdx_iff_getElem?] using hrouted.loops q t
    codes := fun op hop c hc n hn => ((hcomes op hop).codes c hc).slot_lt hn }

end Emits

section Header

variable {σ τ : CompileState}

theorem CompileState.Heads.advances {name : String} {kind : SlotKind} {slot : Nat}
    (h : σ.Heads name kind slot τ) : σ.Advances [] τ := by
  obtain ⟨type, ha⟩ := h.allocated
  rw [h.same]
  exact .allocated ha

theorem CompileState.Headers.advances (h : σ.Headers τ) : σ.Advances [] τ := by
  induction h with
  | refl => exact .refl _
  | tail _ h ih =>
    obtain ⟨name, kind, slot, h⟩ := h
    exact h.advances.after ih

end Header

theorem CompileState.of_charted {s : Scopes} (hs : s.Orderly) : (CompileState.of s).Charted [] :=
  ⟨rfl, hs, .nil _⟩

theorem Build.body_wellFormed {joins : Bool} {nodes : List Node} {template : String}
    {cs : List Scopes.Command} {b : Builder}
    (h : body joins nodes (.of ((Scopes.empty template).after cs)) = (.ok (), b)) :
    WellFormed b.ops.toList b.points b.scopes.slots := by
  obtain ⟨ops, hops, hall⟩ := (Node.buildBlock_writes nodes .sink "").yields h
  have hops : Emits (.block .sink "" nodes) _ ops b.state := emits_block nodes .sink "" _ _ _ hops
  have hwellFormed := hops.wellFormed ⟨Scopes.Named.after template cs, fun _ hn => nomatch hn⟩
    (of_charted (Scopes.Orderly.after template cs))
  rw [hall]
  exact hwellFormed

/-- Before the body only slots of the header are declared. -/
theorem Template.compile_wellFormed {joins : Bool} {t : Template} {c : CompiledTemplate}
    (h : t.compile joins = .ok c) :
    WellFormed c.procedure.ops.toList c.procedure.points c.procedure.layout := by
  obtain ⟨-, υ, χ, ψ, calls, hparts, -⟩ := compile_ok h
  have hparams := params_headers hparts.params
  have hstate := stateVars_headers hparts.state
  have hnamed := hstate.named (hparams.named t.start_named)
  have hcharted : χ.Charted [] := by
    have hempty := of_charted (Scopes.Orderly.empty t.name)
    exact hempty.advances ((hstate.advances.after hparams.advances).after .entered)
  rw [hparts.points, hparts.layout]
  exact hparts.body.wellFormed ⟨hnamed, fun _ hn => nomatch hn⟩ hcharted

/-- All that compiles is well formed. -/
theorem wellFormed_of_compiles (joins : Bool) :
    (∀ (t : Template) c, t.compile joins = .ok c →
      WellFormed c.procedure.ops.toList c.procedure.points c.procedure.layout) ∧
    ∀ (nodes : List Node) template cs b,
      Build.body joins nodes (.of ((Scopes.empty template).after cs)) = (.ok (), b) →
        WellFormed b.ops.toList b.points b.scopes.slots :=
  ⟨fun _ _ => Template.compile_wellFormed, fun _ _ _ _ => Build.body_wellFormed⟩

theorem Build.eq_of_fst {α : Type} {m : Build α} {b : Builder} {a : α} (h : (m b).1 = .ok a) :
    m b = (.ok a, (m b).2) := Prod.ext h rfl

def Template.rows : Template :=
  { Template.empty "rows" with
    params := [.required "names"]
    body := [.each "name" none (.var (.param "names")) [.print (.var (.bound "name"))]
      (some [.text "nobody"])] }

theorem wellFormed_of_compiles_rows :
    let start := Builder.of ((Scopes.empty "rows").after [.enter, .declare "names" .unknown .param])
    (∃ c, Template.rows.compile true = .ok c ∧ c.procedure.ops.size = 6 ∧
      WellFormed c.procedure.ops.toList c.procedure.points c.procedure.layout) ∧
    ∃ b, Build.body true Template.rows.body start = (.ok (), b) ∧ b.ops.size = 6 ∧
      WellFormed b.ops.toList b.points b.scopes.slots := by
  intro start
  constructor
  · have hsize : (Template.rows.compile true).toOption.map (·.procedure.ops.size) = some 6 := by
      decide +kernel
    obtain ⟨c, hc, hsize⟩ := Option.map_eq_some_iff.1 hsize
    have hcompile := Except.toOption_eq_some hc
    exact ⟨c, hcompile, hsize, (wellFormed_of_compiles true).1 _ c hcompile⟩
  · have hok : (Build.body true Template.rows.body start).1.toOption = some () := by
      decide +kernel
    have hsize : (Build.body true Template.rows.body start).2.ops.size = 6 := by decide +kernel
    have hbody := Build.eq_of_fst (Except.toOption_eq_some hok)
    exact ⟨_, hbody, hsize, (wellFormed_of_compiles true).2 _ _ _ _ hbody⟩

end ResumableTemplates
