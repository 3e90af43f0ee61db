import ResumableTemplates.Proofs.Render.Planning

/-! Renders that are never put off, as a relation: what a piece of work does to be seen, and
what it leads to.
Templates, runs of ops and single ops are such pieces of work. A saved render leads to what is left
of it, so a render that was put off and one that was not can be compared. -/
namespace ResumableTemplates

inductive Work
  | template (t : TemplateRef) (frames : Option Frames) (params : Record)
  | ops (position : Nat) (a : Activation)
  | op (position : Nat) (a : Activation)

inductive End
  | done
  | failed (e : RenderError)
  | on (position : Nat) (a : Activation)

def Output.passed : Output → List Deed → List Deed
  | .sink, deeds => deeds
  | .buffer _, deeds => Deed.seen true deeds

def Activation.received (a : Activation) (deeds : List Deed) :
    Output → Except RenderError Activation
  | .sink => .ok a
  | .buffer slot => do
    a.set slot (.buffer ((← a.buffer slot) ++ String.join (Deed.texts deeds)))

def World.fresh (w : World) (unit : Nat) (t : CompiledTemplate) (params : Record) :
    Except RenderError Activation :=
  Activation.start w.injected unit t params fun _ => false

def HostTemplate.left (frames : Option Frames) : HostTemplate → List String
  | .probe _ => []
  | .parts _ texts => texts.drop ((frames.map (·.outer.point)).getD 0)

/-- What a piece of work does at a depth to be seen, and what it leads to. -/
inductive Leads (w : World) : (depth : Nat) → Work → List Deed → End → Prop
  | missing : w.library.compiled? unit name = none →
      Leads w d (.template (.compiled unit name) frames params) [] (.failed (.templateNotFound name))
  | noHost : w.library.hosts[i]? = none →
      Leads w d (.template (.host i) frames params) [] (.failed (.templateNotFound ""))
  | host : w.library.hosts[i]? = some h →
      Leads w d (.template (.host i) frames params) ((h.left frames).map .write) .done
  | fresh : w.library.compiled? unit name = some t → w.fresh unit t params = .ok a →
      Leads w d (.ops 0 a) deeds e →
      Leads w d (.template (.compiled unit name) none params) deeds e
  | resumed : w.library.compiled? unit name = some t → w.fresh unit t params = .ok a →
      a.restore f = .ok (p, b) → Leads w d (.ops p b) deeds e →
      Leads w d (.template (.compiled unit name) (some f) params) deeds e
  | finished : a.template.procedure.ops[p]? = none → Leads w d (.ops p a) [] .done
  | next : Leads w d (.op p a) deeds (.on q b) → Leads w d (.ops q b) deeds' e →
      Leads w d (.ops p a) (deeds ++ deeds') e
  | stopped : Leads w d (.op p a) deeds (.failed e) → Leads w d (.ops p a) deeds (.failed e)
  | failed : a.template.procedure.ops[p]? = some op → a.action w p op = .error e →
      Leads w d (.op p a) (a.seeks w op) (.failed e)
  | goto : a.template.procedure.ops[p]? = some op → a.action w p op = .ok (.goto q b) →
      Leads w d (.op p a) (a.seeks w op) (.on q b)
  | write : a.template.procedure.ops[p]? = some op → a.action w p op = .ok (.write text q b) →
      Leads w d (.op p a) [.write text] (.on q b)
  | tooDeep : a.template.procedure.ops[p]? = some op →
      a.action w p op = .ok (.call out t frames params q b) → w.maxDepth ≤ d →
      Leads w d (.op p a) (a.seeks w op)
        (.failed (.callDepthExceeded (w.library.nameOf t) w.maxDepth))
  | called : a.template.procedure.ops[p]? = some op →
      a.action w p op = .ok (.call out t frames params q b) → d < w.maxDepth →
      Leads w (d + 1) (.template t frames params) deeds .done → b.received deeds out = .ok c →
      Leads w d (.op p a) (a.seeks w op ++ out.passed deeds) (.on q c)
  | callFailed : a.template.procedure.ops[p]? = some op →
      a.action w p op = .ok (.call out t frames params q b) → d < w.maxDepth →
      Leads w (d + 1) (.template t frames params) deeds (.failed e) →
      Leads w d (.op p a) (a.seeks w op ++ out.passed deeds) (.failed e)

namespace Leads

variable {w : World}

theorem exists_op {d p : Nat} {a : Activation} {deeds : List Deed} {e : End}
    (h : Leads w d (.op p a) deeds e) : a.template.procedure.ops[p]? ≠ none := by
  cases h <;> simp_all

theorem of_call {d p q : Nat} {a b : Activation} {op : Op} {out : Output} {t : TemplateRef}
    {frames : Option Frames} {params : Record} {deeds : List Deed} {e : End}
    (h : Leads w d (.op p a) deeds e) (ho : a.template.procedure.ops[p]? = some op)
    (ha : a.action w p op = .ok (.call out t frames params q b)) :
    (w.maxDepth ≤ d ∧ deeds = a.seeks w op ∧
      e = .failed (.callDepthExceeded (w.library.nameOf t) w.maxDepth)) ∨
    d < w.maxDepth ∧ ∃ ds, deeds = a.seeks w op ++ out.passed ds ∧
      ((∃ err, e = .failed err ∧ Leads w (d + 1) (.template t frames params) ds (.failed err)) ∨
        ∃ c, e = .on q c ∧ b.received ds out = .ok c ∧
          Leads w (d + 1) (.template t frames params) ds .done) := by
  cases h with
  | failed ho' ha' | goto ho' ha' | write ho' ha' =>
    cases ho.symm.trans ho'
    cases ha.symm.trans ha'
  | tooDeep ho' ha' hd =>
    cases ho.symm.trans ho'
    cases ha.symm.trans ha'
    exact .inl ⟨hd, rfl, rfl⟩
  | called ho' ha' hd hl hr =>
    cases ho.symm.trans ho'
    cases ha.symm.trans ha'
    exact .inr ⟨hd, _, rfl, .inr ⟨_, rfl, hr, hl⟩⟩
  | callFailed ho' ha' hd hl =>
    cases ho.symm.trans ho'
    cases ha.symm.trans ha'
    exact .inr ⟨hd, _, rfl, .inl ⟨_, rfl, hl⟩⟩

/-- What a piece of work does and leads to is settled. -/
theorem deterministic {d : Nat} {j : Work} {deeds deeds' : List Deed} {e e' : End}
    (h : Leads w d j deeds e) (h' : Leads w d j deeds' e') : deeds = deeds' ∧ e = e' := by
  induction h generalizing deeds' e' with
  | missing hc => cases h' <;> simp_all
  | noHost hi => cases h' <;> simp_all
  | host hi => cases h' <;> simp_all
  | fresh hc ha _ ih =>
    cases h' with
    | missing hc' => simp_all
    | fresh hc' ha' h' =>
      cases hc.symm.trans hc'
      cases ha.symm.trans ha'
      exact ih h'
  | resumed hc ha hb _ ih =>
    cases h' with
    | missing hc' => simp_all
    | resumed hc' ha' hb' h' =>
      cases hc.symm.trans hc'
      cases ha.symm.trans ha'
      cases hb.symm.trans hb'
      exact ih h'
  | finished ho =>
    cases h' with
    | finished _ => exact ⟨rfl, rfl⟩
    | next h' _ => exact absurd ho h'.exists_op
    | stopped h' => exact absurd ho h'.exists_op
  | next h _ ih ih' =>
    cases h' with
    | finished ho => exact absurd ho h.exists_op
    | next h' h'' =>
      obtain ⟨rfl, he⟩ := ih h'
      cases he
      obtain ⟨rfl, rfl⟩ := ih' h''
      exact ⟨rfl, rfl⟩
    | stopped h' => cases (ih h').2
  | stopped h ih =>
    cases h' with
    | finished ho => exact absurd ho h.exists_op
    | next h' h'' => cases (ih h').2
    | stopped h' => exact ih h'
  | failed ho ha => cases h' <;> simp_all
  | goto ho ha => cases h' <;> simp_all
  | write ho ha => cases h' <;> simp_all
  | tooDeep ho ha hd =>
    obtain ⟨-, rfl, rfl⟩ | ⟨hlt, -⟩ := h'.of_call ho ha
    · exact ⟨rfl, rfl⟩
    · omega
  | called ho ha hd _ hr ih =>
    obtain ⟨hge, -⟩ | ⟨-, ds, rfl, ⟨err, -, hcall⟩ | ⟨c, rfl, hr', hcall⟩⟩ := h'.of_call ho ha
    · omega
    · cases (ih hcall).2
    · obtain ⟨rfl, -⟩ := ih hcall
      cases hr.symm.trans hr'
      exact ⟨rfl, rfl⟩
  | callFailed ho ha hd _ ih =>
    obtain ⟨hge, -⟩ | ⟨-, ds, rfl, ⟨err, rfl, hcall⟩ | ⟨c, -, -, hcall⟩⟩ := h'.of_call ho ha
    · omega
    · obtain ⟨rfl, he⟩ := ih hcall
      cases he
      exact ⟨rfl, rfl⟩
    · cases (ih hcall).2

end Leads

inductive Enters (w : World) : (depth : Nat) → Work → CompiledTemplate → Record → Prop
  | self : w.library.compiled? unit name = some t →
      Enters w d (.template (.compiled unit name) frames params) t params
  | fresh : w.library.compiled? unit name = some t → w.fresh unit t params = .ok a →
      Enters w d (.ops 0 a) u r → Enters w d (.template (.compiled unit name) none params) u r
  | resumed : w.library.compiled? unit name = some t → w.fresh unit t params = .ok a →
      a.restore f = .ok (p, b) → Enters w d (.ops p b) u r →
      Enters w d (.template (.compiled unit name) (some f) params) u r
  | here : Enters w d (.op p a) t r → Enters w d (.ops p a) t r
  | next : Leads w d (.op p a) deeds (.on q b) → Enters w d (.ops q b) t r →
      Enters w d (.ops p a) t r
  | call : a.template.procedure.ops[p]? = some op →
      a.action w p op = .ok (.call out t frames params q b) → d < w.maxDepth →
      Enters w (d + 1) (.template t frames params) u r → Enters w d (.op p a) u r

/-- A number of ops done one after another, what they do to be seen, and where they lead. -/
inductive Path (w : World) (d : Nat) :
    Nat → Nat → Activation → List Deed → Nat → Activation → Prop
  | nil : Path w d 0 p a [] p a
  | cons : Leads w d (.op p a) deeds (.on q b) → Path w d n q b deeds' r c →
      Path w d (n + 1) p a (deeds ++ deeds') r c

theorem Path.leads {w : World} {d n p q : Nat} {a b : Activation} {deeds deeds' : List Deed}
    {e : End} (h : Path w d n p a deeds q b) (h' : Leads w d (.ops q b) deeds' e) :
    Leads w d (.ops p a) (deeds ++ deeds') e := by
  induction h with
  | nil => exact h'
  | cons hop _ ih =>
    rw [List.append_assoc]
    exact .next hop (ih h')

theorem Leads.ne_on {w : World} {d p q : Nat} {a b : Activation} {deeds : List Deed} :
    ¬ Leads w d (.ops p a) deeds (.on q b) := by
  intro h
  generalize hj : Work.ops p a = j at h
  generalize he : End.on q b = e at h
  induction h generalizing p a with
  | next _ _ _ ih => exact ih rfl he
  | finished | stopped => cases he
  | _ => cases hj

def Op.isRound : Op → Bool
  | .forNext .. => true
  | _ => false

def Procedure.loops (p : Procedure) : Nat := p.ops.countP Op.isRound

/-- Holds if no activation of a template executes more ops than its number of steps is bounded by:
where no list is longer than `longest`, that is a power of it for the loops. -/
def CompiledTemplate.Ends (t : CompiledTemplate) : Prop :=
  ∀ (w : World) (d longest n p q : Nat) (a b : Activation) (deeds : List Deed),
    a.template = t → (∀ op ∈ t.procedure.ops, op.longest ≤ longest) →
    a.Keeps (·.longest ≤ longest) → Record.All (·.longest ≤ longest) w.injected →
    Path w d n p a deeds q b → n ≤ t.procedure.ops.size * (longest + 2).pow t.procedure.loops

end ResumableTemplates
