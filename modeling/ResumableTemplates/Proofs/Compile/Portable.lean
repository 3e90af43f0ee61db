import ResumableTemplates.Proofs.Compile.Origins

/-! Templates that refer to nothing but other templates: they describe no element in a table of
their unit, and call no delegate without a name, which would be any template that implements none. -/
namespace ResumableTemplates

def Code.describes : Code → Bool
  | .element _ _ (some _) => true
  | _ => false

def Code.Portable (c : Code) : Prop := ∀ d ∈ c.parts, d.describes = false

def Op.delegate? : Op → Option String
  | .call _ _ (.delegate name ..) _ _ => some name
  | _ => none

theorem Op.callee_of_delegate {op : Op} {name : String} (h : op.delegate? = some name) :
    ∃ variant allowEmpty, op.callee? = some (.delegate name variant allowEmpty) := by
  match op, h with
  | .call _ _ (.delegate _ variant allowEmpty) _ _, rfl => exact ⟨variant, allowEmpty, rfl⟩

structure Op.Portable (op : Op) : Prop where
  codes : ∀ c ∈ op.codes, c.Portable
  delegate : op.delegate? ≠ some ""

/-- Holds of templates that describe no element and call no delegate without a name. -/
structure Template.Portable (t : Template) : Prop where
  elements : ∀ id name table, .expr (.element id name (some table)) ∉ t.visits
  delegates : ∀ variant allowEmpty args, .call (.delegate "" variant allowEmpty) args ∉ t.visits

theorem Template.Portable.compiled {t : Template} {joins : Bool} {c : CompiledTemplate}
    (ht : t.Portable) (h : t.compile joins = .ok c) : ∀ op ∈ c.procedure.ops, op.Portable := by
  have hbody : ∀ v ∈ Node.visitsAll t.body, v ∈ t.visits := fun v hv =>
    List.mem_append_right _ hv
  have hknown : ∀ v ∈ Node.visitsAll t.body, v.Known fun _ _ => False := by
    intro v hv
    cases v with
    | expr e =>
      cases e with
      | element id name table =>
        cases table with
        | none => trivial
        | some table => exact ht.elements id name table (hbody _ hv)
      | _ => trivial
    | _ => trivial
  obtain ⟨⟨notes, hflow⟩, -⟩ := compile_flow h hknown
  intro op hop
  refine ⟨fun code hcode d hd => ?_, fun hn => ?_⟩
  · obtain ⟨p, hp, rfl⟩ := Array.getElem_of_mem hop
    have := (hflow.safe p _ (Array.getElem?_eq_getElem hp)).reads code hcode d hd
    cases d with
    | element id name site =>
      cases site with
      | none => rfl
      | some site => exact this.elim
    | _ => rfl
  · obtain ⟨v, allowEmpty, hcallee⟩ := Op.callee_of_delegate hn
    obtain ⟨target, as, σ, τ, hyields, hvisit⟩ := (compile_comes h op hop).callee _ hcallee
    cases Compile.callee_lowers hyields <;> exact ht.delegates _ allowEmpty as hvisit

end ResumableTemplates
