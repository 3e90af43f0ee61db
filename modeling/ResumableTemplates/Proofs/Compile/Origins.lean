import ResumableTemplates.Proofs.Compile.Certified

/-! Where compiled code comes from. Each code of an op is that of an expression of the source, compiled
where every name in scope is that of its slot, and each callee is that of a call of the source. -/
namespace ResumableTemplates

open CompileState

def Scopes.Named (s : Scopes) : Prop :=
  ∀ sc ∈ s.stack, ∀ b ∈ sc.bindings, (s.slots[b.2]?).map (·.name) = some b.1

def CompileState.Within (layout : Array SlotInfo) (σ : CompileState) : Prop :=
  ∀ (i : Nat) info, σ.scopes.slots[i]? = some info → layout[i]? = some info

section Named

variable {σ τ υ : CompileState} {layout : Array SlotInfo}

theorem CompileState.Grows.within (h : σ.Grows τ) (hτ : τ.Within layout) : σ.Within layout :=
  fun i info hi => hτ i info (h.slots i info hi)

theorem Scopes.Named.same (h : σ.scopes.Named) (hs : σ.Same τ) : τ.scopes.Named := by
  rw [hs.scopes]
  exact h

theorem Scopes.Named.entered (h : σ.scopes.Named) : σ.entered.scopes.Named := by
  intro sc hsc
  cases hsc with
  | head => exact fun _ hb => by cases hb
  | tail _ hsc => exact h sc hsc

theorem Scopes.Named.placed (h : σ.scopes.Named) : σ.placed.scopes.Named := h

theorem Scopes.Named.pointed (h : σ.scopes.Named) : σ.pointed.scopes.Named := h

theorem Scopes.Named.grown (h : σ.scopes.Named)
    (hslots : ∀ (i : Nat) info, σ.scopes.slots[i]? = some info → τ.scopes.slots[i]? = some info) :
    (τ.left σ.scopes.stack).scopes.Named := by
  intro sc hsc b hb
  obtain ⟨info, hi, hname⟩ := Option.map_eq_some_iff.1 (h sc hsc b hb)
  exact Option.map_eq_some_iff.2 ⟨info, hslots _ _ hi, hname⟩

theorem Scopes.Allocated.named {s s' : Scopes} {n : Nat} {info : SlotInfo}
    {bound : List (String × Nat)} (ha : s.Allocated n info bound s') (h : s.Named)
    (hbound : ∀ b ∈ bound, b = (info.name, n)) : s'.Named := by
  have hold : ∀ (i : Nat) x, s.slots[i]? = some x → s'.slots[i]? = some x := by
    intro i x hi
    have hlt := (Array.getElem?_eq_some_iff.1 hi).1
    rw [ha.slots, Array.getElem?_push, if_neg (Nat.ne_of_lt hlt), hi]
  obtain ⟨top, rest, hs, hs'⟩ := ha.stack
  have hkept : ∀ sc ∈ top :: rest, ∀ b ∈ sc.bindings, (s'.slots[b.2]?).map (·.name) = some b.1 := by
    intro sc hsc b hb
    obtain ⟨x, hx, hname⟩ := Option.map_eq_some_iff.1 (h sc (hs ▸ hsc) b hb)
    exact Option.map_eq_some_iff.2 ⟨x, hold _ _ hx, hname⟩
  intro sc hsc b hb
  rw [hs'] at hsc
  cases hsc with
  | head =>
    obtain hb | hb := List.mem_append.1 hb
    · rw [hbound b hb, ha.slots, ha.slot, Array.getElem?_push_size]
      rfl
    · exact hkept top List.mem_cons_self b hb
  | tail _ hsc => exact hkept sc (List.mem_cons_of_mem _ hsc) b hb

theorem Compile.temporary_named {label : String} {n : Nat} (h : (temporary label).Yields σ n τ)
    (hσ : σ.scopes.Named) : τ.scopes.Named := by
  obtain ⟨s, hs, rfl⟩ := yields_onScopes.1 h
  exact (Scopes.temporary_ok hs).named hσ fun _ hb => by cases hb

theorem Compile.declare_named {name : String} {type : VarType} {n : Nat}
    (h : (declare name type).Yields σ n τ) (hσ : σ.scopes.Named) : τ.scopes.Named := by
  obtain ⟨s, hs, rfl⟩ := yields_onScopes.1 h
  exact (Scopes.declare_ok hs).named hσ fun _ hb => List.mem_singleton.1 hb

theorem CompileState.Loops.named {var : String} {index : Option String} {list cursor item : Nat}
    {position : Option Nat} (h : σ.Loops var index list cursor item position τ)
    (hσ : σ.scopes.Named) : τ.scopes.Named := by
  obtain ⟨υ, χ, ψ, hlist, hcursor, hitem, hindex⟩ := h.declared
  have hχ : χ.scopes.Named := Compile.temporary_named hcursor (Compile.temporary_named hlist hσ)
  have hψ : ψ.scopes.Named := Compile.declare_named hitem hχ.pointed
  cases index with
  | none =>
    obtain ⟨-, rfl⟩ := Compile.yields_pure.1 hindex
    exact hψ
  | some name =>
    obtain ⟨n, hn, -⟩ := Compile.yields_map.1 hindex
    exact Compile.declare_named hn hψ

theorem Emits.loop_stack {f : Fragment} {var : String} {index : Option String}
    {list cursor item : Nat} {position : Option Nat} {body : List Op} {χ ψ : CompileState} {top : Scope}
    {rest : List Scope} (hpre : υ.entered.Loops var index list cursor item position χ)
    (hbody : Emits f χ.placed body ψ) (hstack : ψ.scopes.stack = top :: rest) :
    rest = υ.scopes.stack ∧
      ∀ (i : Nat) info, υ.scopes.slots[i]? = some info → ψ.scopes.slots[i]? = some info := by
  have h := hpre.grows.1.trans (Grows.placed.trans hbody.grows)
  exact ⟨h.stack hstack, h.slots⟩

theorem Emits.named {f : Fragment} {ops : List Op} (h : Emits f σ ops τ) (hσ : σ.scopes.Named) :
    τ.scopes.Named := by
  induction h with
  | noText | absent | noArgs | noChildren => exact hσ
  | text => exact hσ.pointed
  | raw _ ih | branch _ ih | switch _ ih | invoke _ ih | done _ ih | join _ ih | present _ ih
  | otherwise _ ih | noCase _ ih => exact ih hσ
  | print hc => exact (hσ.same (Expr.compile_same hc)).pointed
  | each hc hpre hbody hstack ih =>
    obtain ⟨rfl, hslots⟩ := Emits.loop_stack hpre hbody hstack
    exact (hσ.same (Expr.compile_same hc)).grown (τ := CompileState.placed _) hslots
  | eachElse hc hpre hbody hstack _ ih ih' =>
    obtain ⟨rfl, hslots⟩ := Emits.loop_stack hpre hbody hstack
    exact ih' ((hσ.same (Expr.compile_same hc)).grown (τ := CompileState.placed _) hslots).placed
  | bind hc hslot => exact (Compile.declare_named hslot (hσ.same (Expr.compile_same hc))).pointed
  | capture hbuffer _ hdest ih =>
    exact (Compile.declare_named hdest (ih (Compile.temporary_named hbuffer hσ).placed)).placed
  | tag _ _ _ ih ih' ih'' | cons _ _ _ ih ih' ih'' => exact ih'' (ih' (ih hσ))
  | test hc _ _ ih ih' => exact ih' (ih (hσ.same (Expr.compile_same hc)).pointed).placed
  | selection hc hsubject _ ih =>
    exact ih (Compile.temporary_named hsubject (hσ.same (Expr.compile_same hc))).pointed
  | «case» hvalues _ _ ih ih' =>
    exact ih' (ih (hσ.same (Compile.IsQuiet.all _ _ _ _ hvalues)).pointed).placed
  | call _ hbase hcallee ih =>
    exact (((ih hσ).same (Compile.IsQuiet.paramsBase _ _ _ _ hbase)).same
      (Compile.IsQuiet.callee _ _ _ _ hcallee)).pointed
  | value hc _ ih | keyed hc _ ih => exact ih (hσ.same (Expr.compile_same hc))
  | content hbuffer _ _ ih ih' => exact ih' (ih (Compile.temporary_named hbuffer hσ).placed).placed
  | child _ _ ih ih' => exact ih' (ih hσ)
  | scope h hstack ih =>
    obtain rfl := h.grows.stack hstack
    exact hσ.grown h.grows.slots

end Named

def Node.visitsElse : Option (List Node) → List Visit
  | none => []
  | some b => Node.visitsAll b

def Fragment.visits : Fragment → List Visit
  | text .. => []
  | node _ n => n.visits
  | block _ _ ns | children _ ns => Node.visitsAll ns
  | optional _ o => Node.visitsElse o
  | branches _ bs o => Node.visitsBranches bs ++ Node.visitsElse o
  | selection _ e cs o => e.visits ++ Node.visitsCases cs ++ Node.visitsElse o
  | cases _ _ cs o => Node.visitsCases cs ++ Node.visitsElse o
  | call _ target data as => .call target as :: (target.visits ++ data.visits ++ Node.visitsArgs as)
  | args as _ => Node.visitsArgs as
  | scope f => f.visits

theorem Node.visits_branch (bs : List (Expr × List Node)) (o : Option (List Node)) :
    (Node.branch bs o).visits =
      .node (.branch bs o) :: (Node.visitsBranches bs ++ Node.visitsElse o) := by
  cases o <;> rfl

theorem Node.visits_switch (e : Expr) (cs : List (List Expr × List Node)) (o : Option (List Node)) :
    (Node.switch e cs o).visits =
      .node (.switch e cs o) :: (e.visits ++ Node.visitsCases cs ++ Node.visitsElse o) := by
  cases o <;> rfl

def Op.callee? : Op → Option Callee
  | .call _ _ callee _ _ => some callee
  | _ => none

def ArgSource.slots : ArgSource → List Nat
  | .code _ => []
  | .slot n => [n]

def Op.contents : Op → List Nat
  | .call _ _ _ _ args => args.flatMap (·.2.slots)
  | _ => []

theorem Op.contents_of_callee {op : Op} (h : op.callee? = none) : op.contents = [] := by
  cases op with
  | call => cases h
  | _ => rfl

def Fragment.codes : Fragment → List Code
  | args _ sources => sources.flatMap (·.2.codes)
  | scope f => f.codes
  | _ => []

def Fragment.contents : Fragment → List Nat
  | args _ sources => sources.flatMap (·.2.slots)
  | scope f => f.contents
  | _ => []

def IsTemporary (layout : Array SlotInfo) (n : Nat) : Prop :=
  ∃ info, layout[n]? = some info ∧ info.kind = .synthetic

section Comes

variable (layout : Array SlotInfo) (Q : Visit → Prop)

def Code.Comes (c : Code) : Prop :=
  ∃ (e : Expr) (σ τ : CompileState), e.compile.Yields σ c τ ∧ σ.scopes.Named ∧ σ.Within layout ∧
    ∀ v ∈ e.visits, Q v

/-- Holds of an op whose codes and whose callee come from visits of which `Q` holds, and whose contents
are in temporaries. -/
structure Op.Comes (op : Op) : Prop where
  codes : ∀ c ∈ op.codes, c.Comes layout Q
  contents : ∀ n ∈ op.contents, IsTemporary layout n
  callee : ∀ callee, op.callee? = some callee → ∃ target as σ τ,
    (Compile.callee target).Yields σ callee τ ∧ Q (.call target as)

variable {layout Q} {σ τ υ : CompileState}

theorem Op.Comes.of_codes {op : Op} (hcallee : op.callee? = none)
    (hcodes : ∀ c ∈ op.codes, c.Comes layout Q) : op.Comes layout Q where
  codes := hcodes
  contents n hn := by
    rw [Op.contents_of_callee hcallee] at hn
    cases hn
  callee _ h := by cases hcallee.symm.trans h

theorem Op.Comes.plain {op : Op} (hcodes : op.codes = []) (hcallee : op.callee? = none) :
    op.Comes layout Q :=
  .of_codes hcallee fun c hc => by
    rw [hcodes] at hc
    cases hc

theorem Code.Comes.of_yields {e : Expr} {c : Code} (h : e.compile.Yields σ c τ) (hσ : σ.scopes.Named)
    (hτ : τ.Within layout) (hQ : ∀ v ∈ e.visits, Q v) : c.Comes layout Q :=
  ⟨e, σ, τ, h, hσ, (Grows.of_same (Expr.compile_same h)).within hτ, hQ⟩

theorem Compile.compileAll_comes {es : List Expr} {cs : List Code}
    (h : (Expr.compileAll es).Yields σ cs τ) (hσ : σ.scopes.Named) (hτ : τ.Within layout)
    (hQ : ∀ v ∈ Expr.visitsAll es, Q v) : ∀ c ∈ cs, c.Comes layout Q := by
  intro c hc
  have hw := (Grows.of_same (IsQuiet.all es _ _ _ h)).within hτ
  obtain ⟨e, υ, ω, he, hs, hsub⟩ := Expr.compileAll_parts h c hc c (Code.mem_parts c)
  exact ⟨e, υ, ω, he, hs ▸ hσ, by rw [Within, hs]; exact hw, fun v hv => hQ v (hsub v hv)⟩

theorem Compile.paramsBase_comes {data : CallData} {base : ParamsBase}
    (h : (paramsBase data).Yields σ base τ) (hσ : σ.scopes.Named) (hτ : τ.Within layout)
    (hQ : ∀ v ∈ data.visits, Q v) : ∀ c ∈ base.codes, c.Comes layout Q := by
  cases paramsBase_lowers h with
  | none | all => exact fun _ hd => by cases hd
  | expr hc => exact fun d hd => List.mem_singleton.1 hd ▸ .of_yields hc hσ hτ hQ

theorem Compile.callee_comes {target : CallTarget} {callee : Callee}
    (h : (Compile.callee target).Yields σ callee τ) (hσ : σ.scopes.Named) (hτ : τ.Within layout)
    (hQ : ∀ v ∈ target.visits, Q v) : ∀ c ∈ callee.codes, c.Comes layout Q := by
  cases callee_lowers h with
  | template | delegate => exact fun _ hd => by cases hd
  | variant hc => exact fun d hd => List.mem_singleton.1 hd ▸ .of_yields hc hσ hτ hQ

theorem IsTemporary.mono {n : Nat} (h : IsTemporary σ.scopes.slots n) (hσ : σ.Within layout) :
    IsTemporary layout n :=
  h.imp fun info h => ⟨hσ n info h.1, h.2⟩

theorem Compile.temporary_isTemporary {label : String} {n : Nat}
    (h : (temporary label).Yields σ n τ) : IsTemporary τ.scopes.slots n := by
  obtain ⟨s, hs, rfl⟩ := yields_onScopes.1 h
  have ha := Scopes.temporary_ok hs
  refine ⟨⟨label, .unknown, .synthetic⟩, ?_, rfl⟩
  rw [ha.slots, ha.slot, Array.getElem?_push_size]

/-- All that ops evaluate, pass on and call comes from their source. -/
theorem Emits.comes {f : Fragment} {ops : List Op} (h : Emits f σ ops τ) (hσ : σ.scopes.Named)
    (hτ : τ.Within layout) (hQ : ∀ v ∈ f.visits, Q v) :
    ((∀ c ∈ f.codes, c.Comes layout Q) ∧ ∀ n ∈ f.contents, IsTemporary layout n) ∧
      ∀ op ∈ ops, op.Comes layout Q := by
  have nocode : (∀ c ∈ ([] : List Code), c.Comes layout Q) ∧
      ∀ n ∈ ([] : List Nat), IsTemporary layout n :=
    ⟨fun _ h => (by cases h), fun _ h => (by cases h)⟩
  have noop : ∀ op ∈ ([] : List Op), op.Comes layout Q := fun _ h => by cases h
  -- By induction on what is emitted. Scopes stay named, so a code's slots are those of the names met.
  induction h with
  | noText | absent | noArgs | noChildren => exact ⟨nocode, noop⟩
  | text => exact ⟨nocode, List.forall_mem_singleton.2 (.plain rfl rfl)⟩
  | raw _ ih => exact ih hσ hτ fun _ h => by cases h
  | done _ ih => exact ih hσ hτ fun _ h => by cases h
  | present _ ih | otherwise _ ih | noCase _ ih => exact ih hσ hτ hQ
  | branch _ ih =>
    rw [Fragment.visits, Node.visits_branch, List.forall_mem_cons] at hQ
    exact ih hσ hτ hQ.2
  | switch _ ih =>
    rw [Fragment.visits, Node.visits_switch, List.forall_mem_cons] at hQ
    exact ⟨nocode, (ih hσ hτ hQ.2).2⟩
  | invoke _ ih =>
    rw [Fragment.visits, Node.visits, List.forall_mem_cons] at hQ
    exact ⟨nocode, (ih hσ hτ hQ.2).2⟩
  | join _ ih =>
    rw [Fragment.visits, Node.visitsAll, List.forall_mem_append] at hQ
    exact ih hσ hτ hQ.2
  | print hc =>
    rw [Fragment.visits, Node.visits, List.forall_mem_cons] at hQ
    exact ⟨nocode, List.forall_mem_singleton.2 (.of_codes rfl (List.forall_mem_singleton.2
      (.of_yields hc hσ (Grows.pointed.within hτ) hQ.2)))⟩
  | bind hc hslot =>
    rw [Fragment.visits, Node.visits, List.forall_mem_cons] at hQ
    have hg := (Compile.declare_grows hslot).1.trans .pointed
    exact ⟨nocode, List.forall_mem_singleton.2 (.of_codes rfl (List.forall_mem_singleton.2
      (.of_yields hc hσ (hg.within hτ) hQ.2)))⟩
  | each hc hpre hbody hstack ih =>
    simp only [Fragment.visits, Node.visits, List.forall_mem_cons, List.forall_mem_append] at hQ
    obtain ⟨rfl, hslots⟩ := Emits.loop_stack hpre hbody hstack
    have hχ := hpre.named (hσ.same (Expr.compile_same hc)).entered
    have hitems := Code.Comes.of_yields hc hσ (fun i info hi => hτ i info (hslots i info hi)) hQ.2.1.1
    have hblock := ih hχ.placed hτ hQ.2.1.2
    simp only [List.forall_mem_cons, List.forall_mem_append]
    exact ⟨nocode, .of_codes rfl (List.forall_mem_singleton.2 hitems), .plain rfl rfl, hblock.2,
      .plain rfl rfl, noop⟩
  | eachElse hc hpre hbody hstack hrest ih ih' =>
    simp only [Fragment.visits, Node.visits, List.forall_mem_cons, List.forall_mem_append] at hQ
    obtain ⟨rfl, hslots⟩ := Emits.loop_stack hpre hbody hstack
    have hυ := hσ.same (Expr.compile_same hc)
    have hψ := hrest.grows.within hτ
    have hitems := Code.Comes.of_yields hc hσ (fun i info hi => hψ i info (hslots i info hi)) hQ.2.1.1
    have hblock := ih (hpre.named hυ.entered).placed hψ hQ.2.1.2
    have hother := ih' (hυ.grown (τ := CompileState.placed _) hslots).placed hτ hQ.2.2
    simp only [List.forall_mem_cons, List.forall_mem_append]
    exact ⟨nocode, .of_codes rfl (List.forall_mem_singleton.2 hitems), .plain rfl rfl, hblock.2,
      .plain rfl rfl, .plain rfl rfl, hother.2⟩
  | capture hbuffer hbody hdest ih =>
    rw [Fragment.visits, Node.visits, List.forall_mem_cons] at hQ
    have hg := (Compile.declare_grows hdest).1.trans .placed
    have hbody := ih (Compile.temporary_named hbuffer hσ).placed (hg.within hτ) hQ.2
    simp only [List.forall_mem_cons, List.forall_mem_append]
    exact ⟨nocode, .plain rfl rfl, hbody.2, .plain rfl rfl, noop⟩
  | tag hstart hbody hstop ih ih' ih'' =>
    rw [Fragment.visits, Node.visits, List.forall_mem_cons] at hQ
    have hυ := hstart.named hσ
    have hstart := ih hσ ((hbody.grows.trans hstop.grows).within hτ) fun _ h => by cases h
    have hinner := ih' hυ (hstop.grows.within hτ) hQ.2
    have hstop := ih'' (hbody.named hυ) hτ fun _ h => by cases h
    simp only [List.forall_mem_append]
    exact ⟨nocode, ⟨hstart.2, hinner.2⟩, hstop.2⟩
  | cons hbefore hn hrest ih ih' ih'' =>
    rw [Fragment.visits, Node.visitsAll, List.forall_mem_append] at hQ
    have hυ := hbefore.named hσ
    have hbefore := ih hσ ((hn.grows.trans hrest.grows).within hτ) fun _ h => by cases h
    have hnode := ih' hυ (hrest.grows.within hτ) hQ.1
    have hrest := ih'' (hn.named hυ) hτ hQ.2
    simp only [List.forall_mem_append]
    exact ⟨nocode, ⟨hbefore.2, hnode.2⟩, hrest.2⟩
  | test hc hbody hrest ih ih' =>
    simp only [Fragment.visits, Node.visitsBranches, List.forall_mem_append] at hQ
    have hυ := hσ.same (Expr.compile_same hc)
    have hg := Grows.placed.trans hrest.grows
    have hcode := Code.Comes.of_yields hc hσ ((Grows.pointed.trans (hbody.grows.trans hg)).within hτ)
      hQ.1.1.1
    have hblock := ih hυ.pointed (hg.within hτ) hQ.1.1.2
    have hothers := ih' (hbody.named hυ.pointed).placed hτ
      (List.forall_mem_append.2 ⟨hQ.1.2, hQ.2⟩)
    simp only [List.forall_mem_cons, List.forall_mem_append]
    exact ⟨nocode, .of_codes rfl (List.forall_mem_singleton.2 hcode), hblock.2, .plain rfl rfl, hothers.2⟩
  | selection hc hsubject hcases ih =>
    simp only [Fragment.visits, List.forall_mem_append] at hQ
    have hυ := hσ.same (Expr.compile_same hc)
    have hg := (Compile.temporary_grows hsubject).1.trans (Grows.pointed.trans hcases.grows)
    have hrest := ih (Compile.temporary_named hsubject hυ).pointed hτ
      (List.forall_mem_append.2 ⟨hQ.1.2, hQ.2⟩)
    exact ⟨nocode, List.forall_mem_cons.2 ⟨.of_codes rfl (List.forall_mem_singleton.2
      (.of_yields hc hσ (hg.within hτ) hQ.1.1)), hrest.2⟩⟩
  | «case» hvalues hbody hrest ih ih' =>
    simp only [Fragment.visits, Node.visitsCases, List.forall_mem_append] at hQ
    have hυ := hσ.same (Compile.IsQuiet.all _ _ _ _ hvalues)
    have hg := Grows.placed.trans hrest.grows
    have hcodes := Compile.compileAll_comes hvalues hσ
      ((Grows.pointed.trans (hbody.grows.trans hg)).within hτ) hQ.1.1.1
    have hblock := ih hυ.pointed (hg.within hτ) hQ.1.1.2
    have hothers := ih' (hbody.named hυ.pointed).placed hτ
      (List.forall_mem_append.2 ⟨hQ.1.2, hQ.2⟩)
    simp only [List.forall_mem_cons, List.forall_mem_append]
    exact ⟨nocode, .of_codes rfl hcodes, hblock.2, .plain rfl rfl, hothers.2⟩
  | call hargs hbase hcallee ih =>
    simp only [Fragment.visits, List.forall_mem_cons, List.forall_mem_append] at hQ
    have hψ := (Grows.of_same (Compile.IsQuiet.callee _ _ _ _ hcallee)).trans .pointed
    have hχ := (Grows.of_same (Compile.IsQuiet.paramsBase _ _ _ _ hbase)).trans hψ
    have hυ := hargs.named hσ
    have hinner := ih hσ (hχ.within hτ) hQ.2.2
    have hbases := Compile.paramsBase_comes hbase hυ (hψ.within hτ) hQ.2.1.2
    have hcallees := Compile.callee_comes hcallee
      (hυ.same (Compile.IsQuiet.paramsBase _ _ _ _ hbase)) (Grows.pointed.within hτ) hQ.2.1.1
    refine ⟨nocode, List.forall_mem_append.2 ⟨hinner.2, List.forall_mem_singleton.2 ⟨?_, hinner.1.2, ?_⟩⟩⟩
    · simp only [Op.codes, List.forall_mem_append]
      exact ⟨⟨hbases, hinner.1.1⟩, hcallees⟩
    · rintro _ ⟨⟩
      exact ⟨_, _, _, _, hcallee, hQ.1⟩
  | value hc hargs ih =>
    simp only [Fragment.visits, Node.visitsArgs, List.forall_mem_append] at hQ
    have hrest := ih (hσ.same (Expr.compile_same hc)) hτ hQ.2
    have hcode := Code.Comes.of_yields hc hσ (hargs.grows.within hτ) hQ.1
    exact ⟨⟨List.forall_mem_cons.2 ⟨hcode, hrest.1.1⟩, hrest.1.2⟩, hrest.2⟩
  | content hbuffer hbody hargs ih ih' =>
    simp only [Fragment.visits, Node.visitsArgs, List.forall_mem_append] at hQ
    have hυ := (Compile.temporary_named hbuffer hσ).placed
    have hblock := ih hυ ((Grows.placed.trans hargs.grows).within hτ) hQ.1
    have hrest := ih' (hbody.named hυ).placed hτ hQ.2
    have hkept := (Grows.placed.trans (hbody.grows.trans (Grows.placed.trans hargs.grows))).within hτ
    have hslot := (Compile.temporary_isTemporary hbuffer).mono hkept
    simp only [List.forall_mem_cons, List.forall_mem_append]
    exact ⟨⟨hrest.1.1, List.forall_mem_cons.2 ⟨hslot, hrest.1.2⟩⟩, .plain rfl rfl, hblock.2,
      .plain rfl rfl, hrest.2⟩
  | keyed hc hrest ih =>
    rw [Fragment.visits, Node.visitsAll, List.forall_mem_append] at hQ
    exact ih (hσ.same (Expr.compile_same hc)) hτ hQ.2
  | child hn hrest ih ih' =>
    rw [Fragment.visits, Node.visitsAll, List.forall_mem_append] at hQ
    have hnode := ih hσ (hrest.grows.within hτ) hQ.1
    have hothers := ih' (hn.named hσ) hτ hQ.2
    exact ⟨nocode, List.forall_mem_append.2 ⟨hnode.2, hothers.2⟩⟩
  | scope h hstack ih => exact ih hσ.entered hτ hQ

end Comes

section Templates

variable {joins : Bool} {t : Template} {c : CompiledTemplate} {σ τ : CompileState}

theorem CompileState.Heads.named {name : String} {kind : SlotKind} {slot : Nat}
    (h : σ.Heads name kind slot τ) (hσ : σ.scopes.Named) : τ.scopes.Named := by
  obtain ⟨type, ha⟩ := h.allocated
  exact ha.named hσ fun _ hb => List.mem_singleton.1 hb

theorem CompileState.Headers.named (h : σ.Headers τ) (hσ : σ.scopes.Named) : τ.scopes.Named := by
  induction h with
  | refl => exact hσ
  | tail _ h ih =>
    obtain ⟨name, kind, slot, h⟩ := h
    exact h.named ih

theorem Template.start_named (t : Template) : t.start.scopes.Named := by
  intro sc hsc b hb
  cases List.mem_singleton.1 hsc
  cases hb

theorem Template.compile_comes (h : t.compile joins = .ok c) :
    ∀ op ∈ c.procedure.ops, op.Comes c.procedure.layout (· ∈ t.visits) := by
  obtain ⟨-, υ, χ, ψ, calls, hparts, -⟩ := compile_ok h
  have hυ := (Compile.params_headers hparts.params).named t.start_named
  have hχ := (Compile.stateVars_headers hparts.state).named hυ
  have hsource : ∀ v ∈ Node.visitsAll t.body, v ∈ t.visits := fun v hv => List.mem_append_right _ hv
  exact fun op hop =>
    (hparts.body.comes hχ (fun i info hi => hparts.layout ▸ hi) hsource).2 op hop.val

end Templates

end ResumableTemplates
