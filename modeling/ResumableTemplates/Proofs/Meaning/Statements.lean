import ResumableTemplates.Proofs.Compile.Layout
import ResumableTemplates.Proofs.Meaning.Fragment

/-! Compiled statements do what they mean. Wherever the slots of names have their values, the ops of a
fragment write what its interpretation writes and come to what it comes to, and names have their values
behind them. Here is one case for each way of emitting ops, loops aside. -/
namespace ResumableTemplates

open CompileState

inductive Renders (w : World) (d : Nat) (t : TemplateRef) (params : Record) : Written Unit → Prop
  | done : Leads w d (.template t none params) deeds .done → String.join (Deed.texts deeds) = text →
      Renders w d t params ⟨text, .ok ()⟩
  | failed : Leads w d (.template t none params) deeds (.failed e) →
      String.join (Deed.texts deeds) = text →
      Renders w d t params ⟨text, .error e⟩

structure Serves (w : World) (d : Nat) (run : TemplateRef → Record → Written Unit) : Prop where
  renders : d < w.maxDepth → ∀ t params, Renders w (d + 1) t params (run t params)
  tooDeep : w.maxDepth ≤ d → ∀ t params,
    run t params = .fail (.callDepthExceeded (w.library.nameOf t) w.maxDepth)

theorem Serves.does {w : World} {d size p : Nat} {run : TemplateRef → Record → Written Unit}
    {a : Activation} {op : Op} {out : Output} {s : Scopes} {t : TemplateRef} {params : Record}
    (hs : Serves w d run) (ho : a.template.procedure.ops[p]? = some op)
    (hact : a.action w p op = .ok (.call out t none params (p + 1) a)) (hout : out.Open s a) :
    Does w d size out p (p + 1) a (fun _ _ => True) (run t params) := by
  have hpasses : ∀ deeds text, String.join (Deed.texts deeds) = text →
      out.Passes (a.seeks w op ++ out.passed deeds) text := by
    intro deeds text htext
    rw [← String.empty_append (s := text)]
    refine (Output.Passes.silent (a.texts_seeks w op) out).append ?_
    cases out with
    | sink => exact htext
    | buffer n => exact Deed.texts_seen deeds
  by_cases hd : d < w.maxDepth
  · have hr := hs.renders hd t params
    generalize run t params = x at hr
    cases hr with
    | @done deeds text hl htext =>
      obtain ⟨b, hb, hab⟩ := hout.received size deeds
      refine .on (.cons (.called ho hact hd hl hb) .nil) ?_ (htext ▸ hab) trivial
      rw [List.append_nil]
      exact hpasses _ _ htext
    | failed hl htext => exact .failed (.stopped (.callFailed ho hact hd hl)) (hpasses _ _ htext)
  · rw [hs.tooDeep (Nat.le_of_not_lt hd)]
    exact .failed (.stopped (.tooDeep ho hact (Nat.le_of_not_lt hd)))
      (.silent (a.texts_seeks w op) out)

namespace Fragment

def WritesTo (out : Output) : Fragment → Prop
  | args .. => True
  | scope f => f.WritesTo out
  | f => f.out = out

def Finds (u : Value) (a : Activation) : Fragment → Prop
  | cases _ subject _ _ => a.locals[subject]? = some (.value u)
  | scope f => f.Finds u a
  | _ => True

structure Starts (unit : Nat) (t : CompiledTemplate) (out : Output) (u : Value) (ρ : Names)
    (a : Activation) (f : Fragment) (σ : CompileState) (ops : List Op) (τ : CompileState) : Prop where
  writes : f.WritesTo out
  named : σ.scopes.Named
  room : τ.scopes.slots.size ≤ a.locals.size
  has : t.Has σ.position ops
  stands : a.Stands unit t σ.scopes ρ
  opens : out.Open σ.scopes a
  finds : f.Finds u a

/-- Holds of a compiled fragment whose ops do what it means. -/
def Means (S : Sources) (run : TemplateRef → Record → Written Unit) (w : World) (d unit : Nat)
    (t : CompiledTemplate) (f : Fragment) (σ : CompileState) (ops : List Op) (τ : CompileState) :
    Prop :=
  ∀ out u ρ a, f.Starts unit t out u ρ a σ ops τ →
    Does w d σ.scopes.slots.size out σ.position τ.position a
      (fun ρ' b => b.Stands unit t τ.scopes ρ' ∧ f.Delivers S run unit w t.name ρ b)
      (f.interpret S run unit t.name u ρ)

end Fragment

section Statements

variable {S : Sources} {run : TemplateRef → Record → Written Unit} {w : World} {d unit : Nat}
  {t : CompiledTemplate} {f g : Fragment} {σ τ υ χ ψ : CompileState} {ops xs ys : List Op}
  {out : Output} {u : Value} {ρ : Names} {a b : Activation}

namespace Fragment.Starts

variable (h : f.Starts unit t out u ρ a σ ops τ)

include h

theorem op {p : Nat} {op : Op} (ho : t.procedure.ops[p]? = some op) :
    a.template.procedure.ops[p]? = some op := h.stands.template ▸ ho

theorem out_lt {n : Nat} (hout : out = .buffer n) : n < σ.scopes.slots.size := h.opens.lt_size hout

theorem new_slot {n : Nat} {info : SlotInfo} {bound : List (String × Nat)} {s : Scopes}
    (ha : σ.scopes.Allocated n info bound s) (hle : s.slots.size ≤ τ.scopes.slots.size) :
    σ.scopes.slots.size ≤ n ∧ n < a.locals.size := by
  have := ha.slot
  have := ha.size
  have := h.room
  omega

theorem of_same (hs : σ.Same υ) : f.Starts unit t out u ρ a υ ops τ where
  writes := h.writes
  named := h.named.same hs
  room := h.room
  has := hs.position ▸ h.has
  stands := h.stands.of_same hs
  opens := hs.scopes ▸ h.opens
  finds := h.finds

end Fragment.Starts

theorem Fragment.Starts.first (h : f.Starts unit t out u ρ a σ (xs ++ ys) ψ) (he : τ.Grows ψ)
    (hw : g.WritesTo out) (hg : g.Finds u a) : g.Starts unit t out u ρ a σ xs τ :=
  ⟨hw, h.named, Nat.le_trans he.size_le h.room, h.has.left, h.stands, h.opens, hg⟩

theorem Emits.starts (he : Emits g σ xs τ) (h : f.Starts unit t out u ρ a σ (xs ++ ys) ψ)
    {k : Fragment} {size : Nat} {text : String} {ρ' : Names} (hw : k.WritesTo out)
    (hab : a.Gains size out text b) (hb : b.Stands unit t τ.scopes ρ') (hopen : out.Open τ.scopes b)
    (hk : k.Finds u b) : k.Starts unit t out u ρ' b τ ys ψ :=
  ⟨hw, he.named h.named, hab.room ▸ h.room, he.position ▸ h.has.right, hb, hopen, hk⟩

theorem Emits.agrees_of_stack (h : Emits f σ ops τ) (hσ : σ.scopes.Named)
    (hstack : τ.scopes.stack = σ.scopes.stack) : σ.scopes.Agrees τ.scopes :=
  hσ.agrees (congrArg (List.map (·.bindings)) hstack) h.grows.slots

/-- A fragment, and what comes behind it. -/
theorem Fragment.Means.andThen {size q : Nat} {goal : α → Activation → Prop}
    {k : Names → Written α} (hf : f.Means S run w d unit t σ xs υ) (he : Emits f σ xs υ)
    (h : f.Starts unit t out u ρ a σ xs υ) (hsize : size ≤ σ.scopes.slots.size)
    (hk : ∀ ρ' b, (f.interpret S run unit t.name u ρ).result = .ok ρ' →
      a.Gains σ.scopes.slots.size out (f.interpret S run unit t.name u ρ).text b →
      b.Stands unit t υ.scopes ρ' → out.Open υ.scopes b → f.Delivers S run unit w t.name ρ b →
      Does w d υ.scopes.slots.size out υ.position q b goal (k ρ')) :
    Does w d size out σ.position q a goal (f.interpret S run unit t.name u ρ >>= k) :=
  ((hf out u ρ a h).bind he.grows.size_le fun ρ' b hr hab hb =>
    hk ρ' b hr hab hb.1 (h.opens.moved hab he.grows.slots) hb.2).mono hsize fun _ _ _ hg => hg

namespace Fragment.Means

theorem of_same (hs : σ.Same υ) (hf : f.Means S run w d unit t υ ops τ) :
    f.Means S run w d unit t σ ops τ := by
  intro out u ρ a h
  rw [← hs.scopes, ← hs.position]
  exact hf out u ρ a (h.of_same hs)

theorem scope {top : Scope} {rest : List Scope} (hf : f.Means S run w d unit t σ.entered ops τ)
    (he : Emits f σ.entered ops τ) (hstack : τ.scopes.stack = top :: rest) :
    (Fragment.scope f).Means S run w d unit t σ ops (τ.left rest) := by
  obtain rfl := he.grows.stack hstack
  intro out u ρ a h
  have hin : f.Starts unit t out u ρ a σ.entered ops τ :=
    ⟨h.writes, h.named.entered, h.room, h.has,
      h.stands.agrees (Scopes.agrees_entered σ), h.opens, h.finds⟩
  refine (hf out u ρ a hin).bind (Nat.le_refl _) fun ρ' b _ hab _ => .pure ⟨?_, trivial⟩
  exact h.stands.moved hab (Nat.le_refl _) h.opens (h.named.agrees rfl he.grows.slots)

theorem choice {β : Type} {r : Except RenderError β} {test : β → Bool} {op : Op} {b : List Node}
    {body rest : List Op} (hs : σ.Same υ)
    (hbody : (Fragment.scope (.block out "" b)).Means S run w d unit t υ.pointed body χ)
    (hbe : Emits (.scope (.block out "" b)) υ.pointed body χ)
    (hrest : g.Means S run w d unit t χ.placed rest τ) (hre : Emits g χ.placed rest τ)
    (hg : g.IsClosed) (hgw : g.WritesTo out)
    (h : f.Starts unit t out u ρ a σ (op :: (body ++ .jump τ.position :: rest)) τ) (hgf : g.Finds u a)
    (hact : a.action w σ.position op =
      r >>= fun v => .ok (.goto (if test v then σ.position + 1 else χ.placed.position) a)) :
    Does w d σ.scopes.slots.size out σ.position τ.position a
      (fun ρ' b => b.Stands unit t τ.scopes ρ') (do
        if test (← r) then (Fragment.scope (.block out "" b)).interpret S run unit t.name u ρ
        else g.interpret S run unit t.name u ρ) := by
  have hυ := h.named.same hs
  have hχ := hbe.named hυ.pointed
  have hbegin : υ.pointed.position = σ.position + 1 := congrArg (· + 1) hs.position
  have hend : σ.position + 1 + body.length = χ.position := by rw [hbe.position, hbegin]
  have hjump : t.Has χ.position (.jump τ.position :: rest) := hend ▸ h.has.tail.right
  have hinner : σ.scopes.Agrees χ.scopes := hs.scopes ▸ hbe.agrees_of_stack hυ.pointed hbe.stack
  have houter : χ.scopes.Agrees τ.scopes := hre.agrees_of_stack hχ.placed (hre.stack_of_closed hg)
  have hgrown : ∀ (i : Nat) info, σ.scopes.slots[i]? = some info →
      χ.scopes.slots[i]? = some info :=
    hs.scopes ▸ hbe.grows.slots
  have hsize : σ.scopes.slots.size ≤ χ.scopes.slots.size := hs.scopes ▸ hbe.grows.size_le
  have hstands : a.Stands unit t υ.scopes ρ := h.stands.of_same hs
  refine .choice (h.op h.has.head) hact ?_ ?_
  · have hblock : (Fragment.scope (.block out "" b)).Starts unit t out u ρ a υ.pointed body χ :=
      ⟨rfl, hυ.pointed, Nat.le_trans hre.grows.size_le h.room, hbegin ▸ h.has.tail.left,
        hstands, hs.scopes ▸ h.opens, trivial⟩
    rw [← bind_pure (Fragment.interpret ..), ← hbegin]
    refine hbody.andThen hbe hblock (Nat.le_of_eq (congrArg (·.slots.size) hs.scopes.symm))
      fun ρ' b hr _ hb _ _ => ?_
    obtain rfl := Written.eq_of_return hr
    exact .goto (hb.template ▸ hjump.head) rfl .refl (hb.agrees houter)
  · have hother : g.Starts unit t out u ρ a χ.placed rest τ :=
      ⟨hgw, hχ.placed, h.room, hjump.tail, h.stands.agrees hinner, h.opens.grown hgrown, hgf⟩
    exact (hrest out u ρ a hother).mono hsize fun _ _ _ hg => hg.1

theorem sequence {f₁ f₂ f₃ : Fragment} {zs : List Op} (h₁ : f₁.Means S run w d unit t σ xs υ)
    (e₁ : Emits f₁ σ xs υ) (h₂ : f₂.Means S run w d unit t υ ys χ) (e₂ : Emits f₂ υ ys χ)
    (h₃ : f₃.Means S run w d unit t χ zs τ) (e₃ : Emits f₃ χ zs τ)
    (hw : f₁.WritesTo out ∧ f₂.WritesTo out ∧ f₃.WritesTo out)
    (hfinds : ∀ a, f₁.Finds u a ∧ f₂.Finds u a ∧ f₃.Finds u a)
    (h : f.Starts unit t out u ρ a σ (xs ++ ys ++ zs) τ) :
    Does w d σ.scopes.slots.size out σ.position τ.position a
      (fun ρ' b => b.Stands unit t τ.scopes ρ')
      (f₁.interpret S run unit t.name u ρ >>= fun ρ =>
        f₂.interpret S run unit t.name u ρ >>= f₃.interpret S run unit t.name u) := by
  rw [List.append_assoc] at h
  have hs₁ := h.first (e₂.grows.trans e₃.grows) hw.1 (hfinds a).1
  refine h₁.andThen e₁ hs₁ (Nat.le_refl _) fun ρ₁ b₁ _ hab₁ hb₁ ho₁ _ => ?_
  have hs₂ := e₁.starts h hw.2.1 hab₁ hb₁ ho₁ (hfinds b₁).2.1
  refine h₂.andThen e₂ (hs₂.first e₃.grows hw.2.1 (hfinds b₁).2.1) (Nat.le_refl _)
    fun ρ₂ b₂ _ hab₂ hb₂ ho₂ _ => ?_
  have hs₃ := e₂.starts hs₂ hw.2.2 hab₂ hb₂ ho₂ (hfinds b₂).2.2
  exact (h₃ out u ρ₂ b₂ hs₃).mono (Nat.le_refl _) fun _ _ _ hg => hg.1

theorem text (s : String) : (Fragment.text out s).Means S run w d unit t σ
    [.text σ.points.size out s] σ.pointed := by
  intro o u ρ a h
  obtain rfl : out = o := h.writes
  refine (Does.emit (h.op h.has.head) rfl h.opens).bind (Nat.le_refl _)
    fun _ b _ hab _ => .pure ⟨?_, trivial⟩
  exact h.stands.moved hab (Nat.le_refl _) h.opens (.refl _)

section Captures

variable {label : String} {buffer dest : Nat} {kind : ContentKind} {b : List Node}
  {body rest : List Op} (hbuffer : (Compile.temporary label).Yields σ buffer υ)
  (hbe : Emits (.scope (.block (.buffer buffer) "" b)) υ.placed body χ)

include hbuffer hbe

theorem captured_grows : σ.Grows χ :=
  (Compile.temporary_grows hbuffer).1.trans (Grows.placed.trans hbe.grows)

theorem captured_position : χ.position = σ.position + 1 + body.length := by
  rw [hbe.position]
  exact congrArg (· + 1 + body.length) (Compile.temporary_grows hbuffer).2.1

theorem captured_agrees (hσ : σ.scopes.Named) : σ.scopes.Agrees χ.scopes :=
  ((Compile.temporary_yields hbuffer).1.agrees hσ).trans
    (hbe.agrees_of_stack (Compile.temporary_named hbuffer hσ).placed hbe.stack)

theorem captured (hgrows : χ.Grows τ)
    (hbody : (Fragment.scope (.block (.buffer buffer) "" b)).Means S run w d unit t υ.placed body χ)
    (h : f.Starts unit t out u ρ a σ
      (.beginCapture buffer :: (body ++ .endCapture buffer dest kind :: rest)) τ)
    (hle : σ.scopes.slots.size ≤ dest) (hlt : dest < τ.scopes.slots.size) :
    Does w d σ.scopes.slots.size out σ.position (χ.position + 1) a
      (fun v b' => b'.locals[dest]? = some (.value v)) (do
        let text ← (Node.interpretBlock S run unit t.name b ρ).captured
        return Activation.captured kind text) := by
  obtain ⟨ha, hυ⟩ := Compile.temporary_yields hbuffer
  obtain ⟨hble, hblt⟩ := h.new_slot ha (Nat.le_trans hbe.grows.size_le hgrows.size_le)
  obtain ⟨a₁, ha₁, hab, hempty, -⟩ :=
    Activation.Gains.set hble hblt (fun _ => h.out_lt) (.buffer "")
  have hnext : υ.placed.position = σ.position + 1 := by rw [hυ]; rfl
  have hact : a.action w σ.position (.beginCapture buffer) = .ok (.goto υ.placed.position a₁) := by
    rw [Activation.action, ha₁, hnext]
    rfl
  have hkind : υ.scopes.kindOf? buffer = some .synthetic := by
    rw [Scopes.kindOf?, ha.slots, ha.slot, Array.getElem?_push_size]
    rfl
  have hstart : (Fragment.scope (.block (.buffer buffer) "" b)).Starts unit t (.buffer buffer) u ρ a₁
      υ.placed body χ :=
    ⟨rfl, (Compile.temporary_named hbuffer h.named).placed,
      hab.room ▸ Nat.le_trans hgrows.size_le h.room, hnext ▸ h.has.tail.left,
      h.stands.moved hab (Nat.le_refl _) h.opens (ha.agrees h.named), ⟨hkind, _, hempty⟩, trivial⟩
  have hend : t.procedure.ops[χ.position]? = some (.endCapture buffer dest kind) := by
    rw [captured_position hbuffer hbe]
    exact h.has.tail.right.head
  have hmeans : (Fragment.scope (.block (.buffer buffer) "" b)).interpret S run unit t.name u ρ = _ :=
    interpret_scope_block b
  rw [← Written.captured_return (c := ρ), ← hmeans]
  have hblock := (hbody _ u ρ a₁ hstart).captured (Nat.le_of_lt (ha.size ▸ Nat.lt_succ_self _)) hble
    fun _ => h.out_lt
  refine .after (h.op h.has.head) hact hab ?_
  refine hblock.bind (Nat.le_refl _) fun text c _ hac hblock => ?_
  obtain ⟨htext, hgains⟩ := hblock
  have hbuf : c.locals[buffer]? = some (.buffer text) := by
    rw [hgains.gained buffer "" rfl hempty, String.empty_append]
  have htemplate : c.template = t := (hac.template.trans hab.template).trans h.stands.template
  refine .endCapture (htemplate ▸ hend) rfl hbuf hble hle ?_ (fun _ => h.out_lt) fun _ _ hv => hv
  rw [hac.room, hab.room]
  exact Nat.lt_of_lt_of_le hlt h.room

end Captures

theorem capture {name : String} {kind : DeclaredKind} {buffer dest : Nat} {b : List Node}
    {body : List Op} (hbuffer : (Compile.temporary "let content").Yields σ buffer υ)
    (hbody : (Fragment.scope (.block (.buffer buffer) "" b)).Means S run w d unit t υ.placed body χ)
    (hbe : Emits (.scope (.block (.buffer buffer) "" b)) υ.placed body χ)
    (hdest : (Compile.declare name (.content kind)).Yields χ dest ψ) :
    (node out (.capture name kind b)).Means S run w d unit t σ
      (.beginCapture buffer :: (body ++ [.endCapture buffer dest kind.rendered])) ψ.placed := by
  intro o u ρ a h
  obtain rfl : out = o := h.writes
  obtain ⟨hd, hψ⟩ := Compile.declare_yields hdest
  have hgrows := captured_grows hbuffer hbe
  have hχn := hbe.named (Compile.temporary_named hbuffer h.named).placed
  have hsize := hgrows.size_le
  have hdest_eq := hd.slot
  have hdest_size : ψ.placed.scopes.slots.size = χ.scopes.slots.size + 1 := hd.size
  have hcontent := captured hbuffer hbe ((Compile.declare_grows hdest).1.trans .placed) hbody h
    (by omega) (by omega)
  rw [show ψ.placed.position = χ.position + 1 by rw [hψ]; rfl,
    show (node out (.capture name kind b)).interpret S run unit t.name u ρ = _ from
      (bind_assoc (Node.interpretBlock S run unit t.name b ρ).captured
        (fun text => pure (Activation.captured kind.rendered text))
        fun v => pure (ρ.bind (.bound name) v)).symm]
  refine hcontent.bind (Nat.le_refl _) fun v c _ hac hv => .pure ⟨?_, trivial⟩
  have hc := h.stands.moved hac (Nat.le_refl _) h.opens (captured_agrees hbuffer hbe h.named)
  exact hc.declared hχn (v := .bound name) hd hv

theorem noArgs : (args [] []).Means S run w d unit t σ [] σ := by
  intro out u ρ a h
  refine .pure ⟨h.stands, fun vs hvs r => ?_⟩
  cases hvs
  rfl

theorem content {name : String} {kind : DeclaredKind} {buffer : Nat} {b : List Node} {body : List Op}
    {as : List Arg} {sources : List (String × ArgSource)}
    (hbuffer : (Compile.temporary "call param").Yields σ buffer υ)
    (hbody : (Fragment.scope (.block (.buffer buffer) "" b)).Means S run w d unit t υ.placed body χ)
    (hbe : Emits (.scope (.block (.buffer buffer) "" b)) υ.placed body χ)
    (has : (args as sources).Means S run w d unit t χ.placed ops τ)
    (hase : Emits (.args as sources) χ.placed ops τ) :
    (args (.content name kind b :: as) ((name, .slot buffer) :: sources)).Means S run w d unit t σ
      (.beginCapture buffer :: (body ++ .endCapture buffer buffer kind.rendered :: ops)) τ := by
  intro out u ρ a h
  have hgrows := captured_grows hbuffer hbe
  have hrest : χ.Grows τ := Grows.placed.trans hase.grows
  have hagrees : σ.scopes.Agrees χ.scopes := captured_agrees hbuffer hbe h.named
  have hslot := (Compile.temporary_yields hbuffer).1.slot
  have hsize := (Compile.temporary_yields hbuffer).1.size
  have hχ : υ.scopes.slots.size ≤ χ.scopes.slots.size := hbe.grows.size_le
  have hτ := hrest.size_le
  rw [interpret_content _ _ _ _ sources]
  refine (captured hbuffer hbe hrest hbody h (by omega) (by omega)).bind hgrows.size_le
    fun v c hcontent hac hv => ?_
  have hstart : (args as sources).Starts unit t out u ρ c χ.placed ops τ :=
    ⟨trivial, (hbe.named (Compile.temporary_named hbuffer h.named).placed).placed, hac.room ▸ h.room,
      by
        have := h.has.tail.right.tail
        rwa [← captured_position hbuffer hbe] at this,
      h.stands.moved hac (Nat.le_refl _) h.opens hagrees, h.opens.moved hac hgrows.slots, trivial⟩
  refine (has out u ρ c hstart).mono (Nat.le_refl _) fun ρ' b' hcb hb => ⟨hb.1, fun vs hvs r => ?_⟩
  rw [interpretContents_content] at hvs
  obtain ⟨v', hv', hvs⟩ := Written.result_ok hvs
  obtain rfl := Except.ok.inj (hcontent.symm.trans hv')
  obtain ⟨us, hus, hvs⟩ := Written.result_ok hvs
  cases hvs
  have hkept : b'.locals[buffer]? = some (.value v) := by
    refine (hcb.kept buffer (show buffer < χ.scopes.slots.size by omega) fun hout => ?_).trans hv
    have := h.out_lt hout
    omega
  rw [Activation.withArgs, Activation.value_of hkept]
  exact hb.2 us hus _

theorem keyed {e : Expr} {c : Code} {ns : List Node} (hc : e.compile.Yields σ c υ)
    (hns : (children out ns).Means S run w d unit t υ ops τ) :
    (children out (.key e :: ns)).Means S run w d unit t σ ops τ := by
  have hs := Expr.compile_same hc
  refine .of_same hs fun out u ρ a h => ?_
  exact hns out u ρ a { h with finds := trivial }

variable (hw : S.Fits w)

include hw

theorem print {e : Expr} {c : Code} (hc : e.compile.Yields σ c υ) :
    (node out (.print e)).Means S run w d unit t σ [.print υ.points.size out c] υ.pointed := by
  intro o u ρ a h
  obtain rfl : out = o := h.writes
  have hs := Expr.compile_same hc
  have hop := h.op h.has.head
  have hact : a.action w σ.position (.print υ.points.size out c) =
      c.result w a >>= fun v => a.emit out v.display (σ.position + 1) := rfl
  rw [Expr.compile_outcome hw hc h.stands] at hact
  rw [show υ.pointed.position = σ.position + 1 from congrArg (· + 1) hs.position]
  refine .eval hop hact fun v _ hact => (Does.emit hop hact h.opens).bind (Nat.le_refl _)
    fun _ b _ hab _ => .pure ⟨?_, trivial⟩
  have hb := h.stands.moved hab (Nat.le_refl _) h.opens (.refl _)
  exact hb.of_same (τ := υ) hs

theorem bind {name : String} {e : Expr} {c : Code} {slot : Nat} (hc : e.compile.Yields σ c υ)
    (hslot : (Compile.declare name .unknown).Yields υ slot χ) :
    (node out (.bind name e)).Means S run w d unit t σ [.store χ.points.size slot c false]
      χ.pointed := by
  have hs := Expr.compile_same hc
  refine .of_same hs fun out u ρ a h => ?_
  obtain ⟨ha, hχ⟩ := Compile.declare_yields hslot
  obtain ⟨hle, hlt⟩ := h.new_slot ha (Nat.le_refl _)
  have hact : a.action w υ.position (.store χ.points.size slot c false) = c.value w a >>= fun v =>
      a.set slot (.value v) >>= fun b => .ok (.goto (υ.position + 1) b) := rfl
  rw [Expr.compile_means hw hc (hs.scopes ▸ h.stands)] at hact
  rw [show χ.pointed.position = υ.position + 1 by rw [hχ]; rfl]
  refine (Does.store (h.op h.has.head) hact hle hlt fun _ => h.out_lt).bind (Nat.le_refl _)
    fun v b _ hab hv => .pure ⟨?_, trivial⟩
  have hb := h.stands.moved hab (Nat.le_refl _) h.opens (.refl _)
  exact hb.declared h.named (v := .bound name) ha hv

theorem selection {e : Expr} {c : Code} {subject : Nat} {cs : List (List Expr × List Node)}
    {o : Option (List Node)} (hc : e.compile.Yields σ c υ)
    (hsubject : (Compile.temporary "switch subject").Yields υ subject χ)
    (hcs : (cases out subject cs o).Means S run w d unit t χ.pointed ops τ)
    (hcse : Emits (.cases out subject cs o) χ.pointed ops τ) :
    (Fragment.selection out e cs o).Means S run w d unit t σ
      (.store χ.points.size subject c true :: ops) τ := by
  have hs := Expr.compile_same hc
  refine .of_same hs fun o u ρ a h => ?_
  obtain rfl : out = o := h.writes
  obtain ⟨ha, hχ⟩ := Compile.temporary_yields hsubject
  obtain ⟨hle, hlt⟩ := h.new_slot ha hcse.grows.size_le
  have hact : a.action w υ.position (.store χ.points.size subject c true) = c.result w a >>= fun v =>
      a.set subject (.value v) >>= fun b => .ok (.goto (υ.position + 1) b) := rfl
  rw [Expr.compile_outcome hw hc (hs.scopes ▸ h.stands)] at hact
  have hχn := (Compile.temporary_named hsubject h.named).pointed
  have hnext : χ.pointed.position = υ.position + 1 := by rw [hχ]; rfl
  rw [interpret_selection]
  refine (Does.store (h.op h.has.head) hact hle hlt fun _ => h.out_lt).bind (Nat.le_refl _)
    fun v b _ hab hv => ?_
  have hb : (cases out subject cs o).Starts unit t out v ρ b χ.pointed ops τ :=
    ⟨rfl, hχn, hab.room ▸ h.room, hnext ▸ h.has.tail,
      h.stands.moved hab (Nat.le_refl _) h.opens (ha.agrees h.named),
      h.opens.moved hab ha.slots_grown, hv⟩
  rw [← hnext]
  exact (hcs out v ρ b hb).mono (Nat.le_of_lt (ha.size ▸ Nat.lt_succ_self _)) fun _ _ _ hg => hg

theorem value {name : String} {e : Expr} {c : Code} {as : List Arg}
    {sources : List (String × ArgSource)} (hc : e.compile.Yields σ c υ)
    (has : (args as sources).Means S run w d unit t υ ops τ) :
    (args (.value name e :: as) ((name, .code c) :: sources)).Means S run w d unit t σ ops τ := by
  intro out u ρ a h
  have hs := Expr.compile_same hc
  have hrest := has out u ρ a { h.of_same hs with writes := trivial, finds := trivial }
  rw [hs.scopes, hs.position] at hrest
  refine hrest.mono (Nat.le_refl _) fun ρ' b hab hb => ⟨hb.1, fun vs hvs r => ?_⟩
  have hv := Expr.compile_means hw hc (h.stands.moved hab (Nat.le_refl _) h.opens (.refl _))
  rw [Activation.withArgs, Arg.layAll, hv]
  exact bind_congr fun v => hb.2 vs hvs _

theorem call {target : CallTarget} {data : CallData} {as : List Arg}
    {sources : List (String × ArgSource)} {base : ParamsBase} {callee : Callee}
    (hrun : Serves w d run)
    (has : (args as sources).Means S run w d unit t σ ops υ)
    (hase : Emits (.args as sources) σ ops υ)
    (hbase : (Compile.paramsBase data).Yields υ base χ)
    (hcallee : (Compile.callee target).Yields χ callee ψ) :
    (Fragment.call out target data as).Means S run w d unit t σ
      (ops ++ [.call ψ.points.size out callee base sources]) ψ.pointed := by
  intro o u ρ a h
  obtain rfl : out = o := h.writes
  have hsame := Compile.IsQuiet.paramsBase _ _ _ _ hbase
  have hsame' := Compile.IsQuiet.callee _ _ _ _ hcallee
  have hgrows : υ.Grows ψ.pointed := (Grows.of_same (hsame.trans hsame')).trans .pointed
  rw [interpret, Node.interpret, Written.bind_known (c := ρ)]
  have hargs : (args as sources).Starts unit t out u ρ a σ ops υ := h.first hgrows trivial trivial
  refine has.andThen hase hargs (Nat.le_refl _) fun ρ' b hr hab hb hopen hdelivers => ?_
  obtain ⟨vs, hvs, hρ⟩ := Written.result_ok hr
  obtain rfl := Except.ok.inj hρ
  have hop : b.template.procedure.ops[υ.position]? =
      some (.call ψ.points.size out callee base sources) := by
    rw [hb.template, hase.position]
    exact h.has.right.head
  have hact : b.action w υ.position (.call ψ.points.size out callee base sources) =
      data.meaning S unit t.name ρ >>= fun r => Arg.layAll S unit t.name ρ r as vs >>= fun params =>
        target.meaning S unit t.name ρ >>= fun o =>
          o.elim (.ok (.goto (υ.position + 1) b)) fun callee =>
            .ok (.call out callee none params (υ.position + 1) b) := by
    have hwaiting : b.waitingAt? ψ.points.size = none := by rw [Activation.waitingAt?, hb.waiting]
    rw [Activation.action, Activation.callAction, hwaiting, ← CallData.compile_means hw hbase hb,
      ← CallTarget.compile_means hw hcallee (hb.of_same hsame)]
    refine bind_congr fun r => ?_
    rw [hdelivers vs hvs r]
    refine bind_congr fun params => bind_congr fun o => ?_
    cases o <;> rfl
  have hend : ψ.pointed.position = υ.position + 1 :=
    congrArg (· + 1) (hsame.trans hsame').position
  rw [hend, hvs]
  refine .eval hop hact fun r _ hact => .eval hop hact fun params _ hact => ?_
  refine .eval hop hact fun o _ hact => ?_
  cases o with
  | none =>
    exact .goto hop hact .refl ⟨hb.of_same (τ := ψ) (hsame.trans hsame'), trivial⟩
  | some callee =>
    refine (hrun.does hop hact hopen).bind (Nat.le_refl _) fun _ c _ hbc _ => .pure ⟨?_, trivial⟩
    have hc := hb.moved hbc (Nat.le_refl _) hopen (.refl _)
    exact hc.of_same (τ := ψ) (hsame.trans hsame')

section Choices

variable {e : Expr} {c : Code} {es : List Expr} {cs : List Code} {b : List Node}
  {body rest : List Op} {bs : List (Expr × List Node)} {others : List (List Expr × List Node)} {o : Option (List Node)}
  (hbody : (Fragment.scope (.block out "" b)).Means S run w d unit t υ.pointed body χ)
  (hbe : Emits (.scope (.block out "" b)) υ.pointed body χ)

include hbody hbe

theorem test (hc : e.compile.Yields σ c υ)
    (hrest : (branches out bs o).Means S run w d unit t χ.placed rest τ)
    (hre : Emits (.branches out bs o) χ.placed rest τ) :
    (branches out ((e, b) :: bs) o).Means S run w d unit t σ
      (.branchUnless υ.points.size c χ.placed.position :: (body ++ .jump τ.position :: rest)) τ := by
  intro out' u ρ a h
  obtain rfl : out = out' := h.writes
  have hact : a.action w σ.position (.branchUnless υ.points.size c χ.placed.position) =
      c.result w a >>= fun v =>
        .ok (.goto (if v.isTruthy then σ.position + 1 else χ.placed.position) a) := rfl
  rw [Expr.compile_outcome hw hc h.stands] at hact
  rw [interpret_test]
  exact (choice (Expr.compile_same hc) hbody hbe hrest hre trivial rfl h trivial hact).mono
    (Nat.le_refl _) fun _ _ _ hg => ⟨hg, trivial⟩

theorem «case» {subject : Nat} (hc : (Expr.compileAll es).Yields σ cs υ)
    (hrest : (cases out subject others o).Means S run w d unit t χ.placed rest τ)
    (hre : Emits (.cases out subject others o) χ.placed rest τ) :
    (cases out subject ((es, b) :: others) o).Means S run w d unit t σ
      (.branchUnlessMatch υ.points.size subject cs χ.placed.position ::
        (body ++ .jump τ.position :: rest)) τ := by
  intro out' u ρ a h
  obtain rfl : out = out' := h.writes
  have hsubject : a.locals[subject]? = some (.value u) := h.finds
  have hvalue : a.value subject = .ok u := Activation.value_of hsubject
  have hact : a.action w σ.position (.branchUnlessMatch υ.points.size subject cs χ.placed.position) =
      a.value subject >>= fun u => a.matched w u cs >>= fun b =>
        .ok (.goto (if id b then σ.position + 1 else χ.placed.position) a) := rfl
  rw [hvalue, Except.ok_bind, Expr.compileAll_matched hw hc h.stands] at hact
  rw [interpret_case es b subject others o]
  exact (choice (Compile.IsQuiet.all _ _ _ _ hc) hbody hbe hrest hre trivial rfl h
    hsubject hact).mono (Nat.le_refl _) fun _ _ _ hg => ⟨hg, trivial⟩

end Choices

end Fragment.Means

end Statements

end ResumableTemplates
