import ResumableTemplates.Proofs.Compile.Laying

/-! The layout of every kind of statement, from the layouts of its parts. Main statement: whatever the
compiler emits for a fragment is laid out. -/
namespace ResumableTemplates

open CompileState (Grows)

section Loops

variable {K : Plan} {σ υ χ ψ τ : CompileState} {Γ : Typing} {out : Output} {items : Expr} {c : Code}
  {var : String} {index : Option String} {list cursor item : Nat} {position : Option Nat}
  {b : List Node} {body : List Op}

structure LoopLaid (K : Plan) (p first : Nat) (Γ : Typing) (out : Output) (point : Nat) (items : Code)
    (list cursor item : Nat) (position : Option Nat) (body : List Op) : Prop where
  init : ∀ onEmpty, (Op.forInit point items list cursor onEmpty).Fits K p Γ
  next : (Op.forNext list cursor item position (p + body.length + 3)).Fits K (p + 1)
    (Γ.looping list cursor)
  rounds : Laid K (p + 2) ((Γ.looping list cursor).round item position) body (Γ.looping list cursor)
  avoids : ∀ op ∈ body, list ∉ op.writes ∧ cursor ∉ op.writes
  le : Γ.Le (Γ.looping list cursor)
  new : ∀ n ∈ list :: cursor :: item :: position.toList, first ≤ n
  spares : Spares first out body

theorem LoopSlots.new {first next : Nat} (h : LoopSlots first list cursor item position next) :
    ∀ n ∈ list :: cursor :: item :: position.toList, first ≤ n := by
  have hlist := h.list_eq
  have hcursor := h.cursor_eq
  intro n hn
  simp only [List.mem_cons] at hn
  obtain rfl | rfl | hn := hn
  · omega
  · omega
  · have := h.lt_variable (List.mem_cons.2 hn)
    omega

theorem CompileState.Loops.laid (hloop : υ.entered.Loops var index list cursor item position χ)
    (hc : items.compile.Yields σ c υ) (hbody : Emits (.scope (.block out "" b)) χ.placed body ψ)
    (ih : (Fragment.scope (.block out "" b)).CanLay K χ.placed body ψ) (hK : K.Has ψ)
    (hΓ : Tied K σ.scopes Γ) (hout : out.Safe Γ) (hitems : ∀ v ∈ items.visits, v.Known K.known)
    (hb : ∀ v ∈ Node.visitsAll b, v.Known K.known) :
    LoopLaid K σ.position σ.scopes.slots.size Γ out υ.points.size c list cursor item position body ∧
      ψ.scopes.Sound K.header := by
  have hs := Expr.compile_same hc
  have hΓυ : Tied K υ.scopes Γ := hΓ.of_same hs
  have hχ : K.Has χ := hK.of_grows (Grows.placed.trans hbody.grows)
  obtain ⟨hslots, hround, ω, hpoints, hposition, hholds, hω⟩ := hloop.tied hΓυ.enter hχ
  have hfresh : ∀ n, υ.entered.scopes.slots.size ≤ n → Γ n = none := fun n hn => hΓυ.fresh hn
  have hsize : υ.entered.scopes.slots.size = σ.scopes.slots.size := by
    rw [← hs.scopes]
    rfl
  have hle := hslots.le_looping hfresh
  have hready : out.Safe ((Γ.looping list cursor).round item position) :=
    hout.mono (hle.trans (hslots.le_round hfresh))
  obtain ⟨Δ, hΔ⟩ := ih _ hK hround.placed hready hb
  obtain rfl := hΔ.same trivial
  have hlist := hslots.list_eq
  have hcursor := hslots.cursor_eq
  have hitem := hslots.item_eq
  have hnext := hslots.room item List.mem_cons_self
  have hheader : K.header ≤ υ.entered.scopes.slots.size := hΓυ.sound.room
  have hroom := hχ.size
  refine ⟨⟨fun onEmpty => ?_, ?_, ?_, fun op hop => ?_, hle, hsize ▸ hslots.new, ?_⟩,
    hΔ.tied.sound⟩
  · refine Op.Fits.pointed hholds hω (hposition.trans hs.position) (by rw [hpoints]; rfl)
      ⟨by omega, by omega, by omega, Expr.compile_reads hc hΓ.typed hitems⟩ fun n hn => ?_
    simp only [Op.writes, List.mem_cons, List.not_mem_nil, or_false] at hn
    omega
  · exact hslots.fits_next Γ hheader hroom _
  · have hp : χ.placed.position = σ.position + 2 := by
      rw [← hs.position]
      exact congrArg (· + 1) hloop.grows.2
    exact .weaken (hp ▸ hΔ.laid) (hslots.le_round hfresh)
  · have hne : ∀ n, n = list ∨ n = cursor → n ∉ op.writes := fun n hn hmem => by
      obtain hge | hbuffer := hΔ.writes op hop n hmem
      · have : χ.scopes.slots.size ≤ n := hge
        omega
      · have hbuf : out = .buffer n := hbuffer
        rw [hbuf] at hout
        have : Γ n = some .buffer := hout
        rw [hfresh n (by omega)] at this
        cases this
    exact ⟨hne _ (.inl rfl), hne _ (.inr rfl)⟩
  · exact Spares.mono hΔ.writes (hsize ▸ hloop.grows.1.size_le)

namespace LoopLaid

variable {p first point : Nat} {ops : List Op}

theorem spares_all (h : LoopLaid K p first Γ out point c list cursor item position body)
    (onEmpty : Option Nat) (exit : Nat) (hops : Spares first out ops) :
    Spares first out (.forInit point c list cursor onEmpty ::
      .forNext list cursor item position exit :: (body ++ ops)) := by
  refine Spares.cons (fun n hn => .inl (h.new n ?_))
    (Spares.cons (fun n hn => .inl (h.new n ?_)) (h.spares.append hops))
  · simp only [Op.writes, List.mem_cons, List.not_mem_nil, or_false] at hn
    obtain rfl | rfl := hn
    · exact List.mem_cons_self
    · exact List.mem_cons_of_mem _ List.mem_cons_self
  · exact List.mem_cons_of_mem _ hn

end LoopLaid

theorem Spares.jump {size target : Nat} {ops : List Op} (h : Spares size out ops) :
    Spares size out (.jump target :: ops) :=
  Spares.cons (fun n hn => (by cases hn)) h

theorem Spares.captured {size size' buffer dest : Nat} {kind : ContentKind} {ops : List Op}
    (h : Spares size' (.buffer buffer) body) (hbuffer : size ≤ buffer) (hdest : size ≤ dest)
    (hle : size ≤ size') (hops : Spares size out ops) :
    Spares size out (.beginCapture buffer :: (body ++ .endCapture buffer dest kind :: ops)) := by
  refine Spares.cons (fun n hn => .inl (List.mem_singleton.1 hn ▸ hbuffer)) (Spares.append
    (fun op hop n hn => .inl ?_) (Spares.cons (fun n hn => .inl ?_) hops))
  · obtain hge | heq := h op hop n hn
    · exact Nat.le_trans hle hge
    · cases heq
      exact hbuffer
  · simp only [Op.writes, List.mem_cons, List.not_mem_nil, or_false] at hn
    obtain rfl | rfl := hn
    · exact hbuffer
    · exact hdest

end Loops

section Statements

variable {K : Plan} {σ υ χ ψ τ : CompileState} {out : Output} {c : Code} {e : Expr}
  {var name : String} {index : Option String} {list cursor item : Nat} {position : Option Nat}
  {b d : List Node} {body ops rest : List Op} {top : Scope} {outer : List Scope}

theorem CompileState.Loops.stack
    (h : υ.entered.Loops var index list cursor item position χ)
    (hbody : Emits (.scope (.block out "" b)) χ.placed body ψ) (hc : e.compile.Yields σ c υ)
    (hstack : ψ.scopes.stack = top :: outer) :
    outer = σ.scopes.stack := by
  rw [← (Expr.compile_same hc).scopes]
  exact (h.grows.1.trans (Grows.placed.trans hbody.grows)).stack hstack

theorem Fragment.canLay_each (hc : e.compile.Yields σ c υ)
    (hloop : υ.entered.Loops var index list cursor item position χ)
    (hbody : Emits (.scope (.block out "" b)) χ.placed body ψ)
    (hstack : ψ.scopes.stack = top :: outer)
    (ih : (Fragment.scope (.block out "" b)).CanLay K χ.placed body ψ) :
    (Fragment.node out (.each var index e b none)).CanLay K σ
      (.forInit υ.points.size c list cursor none ::
        .forNext list cursor item position ψ.placed.position :: (body ++ [.jump χ.position]))
      (ψ.placed.left outer) := by
  intro Γ hK hΓ hready hknown
  have hψ : K.Has ψ := ⟨hK.points, hK.size⟩
  simp only [Fragment.Known, Node.visits, List.append_nil, List.forall_mem_cons,
    List.forall_mem_append] at hknown
  obtain ⟨hl, hsound⟩ := hloop.laid hc hbody ih hψ hΓ hready hknown.2.1 hknown.2.2
  obtain rfl := hloop.stack hbody hc hstack
  have hχ : χ.position = σ.position + 1 := hloop.grows.2.trans
    (congrArg (· + 1) (Expr.compile_same hc).position)
  have hψp : ψ.placed.position = σ.position + body.length + 3 := by
    have := hbody.position
    simp only [CompileState.placed] at *
    omega
  refine ⟨Γ, .refl _, hΓ.leave hsound (show ψ.scopes.stack = [top] ++ σ.scopes.stack from hstack), ?_, fun _ => rfl, ?_, fun _ _ h => (by cases h)⟩
  · rw [hχ, hψp]
    exact .weaken (.loop (hl.init _) hl.next hl.rounds hl.avoids hΓ.values) hl.le
  · exact hl.spares_all _ _ (Spares.nil.jump)

theorem Fragment.canLay_eachElse (hc : e.compile.Yields σ c υ)
    (hloop : υ.entered.Loops var index list cursor item position χ)
    (hbody : Emits (.scope (.block out "" b)) χ.placed body ψ)
    (hstack : ψ.scopes.stack = top :: outer)
    (hops : Emits (.scope (.block out "" d)) (ψ.placed.left outer).placed ops τ)
    (ih : (Fragment.scope (.block out "" b)).CanLay K χ.placed body ψ)
    (ih' : (Fragment.scope (.block out "" d)).CanLay K (ψ.placed.left outer).placed ops τ) :
    (Fragment.node out (.each var index e b (some d))).CanLay K σ
      (.forInit υ.points.size c list cursor (some ψ.placed.placed.position) ::
        .forNext list cursor item position ψ.placed.position ::
          (body ++ .jump χ.position :: .jump τ.position :: ops)) τ := by
  intro Γ hK hΓ hready hknown
  have hψ : K.Has ψ := by
    have := hK.of_grows hops.grows
    exact ⟨this.points, this.size⟩
  simp only [Fragment.Known, Node.visits, List.forall_mem_cons, List.forall_mem_append] at hknown
  obtain ⟨hl, hsound⟩ := hloop.laid hc hbody ih hψ hΓ hready hknown.2.1.1 hknown.2.1.2
  obtain rfl := hloop.stack hbody hc hstack
  have hΓψ : Tied K (ψ.placed.left σ.scopes.stack).placed.scopes Γ :=
    hΓ.leave hsound (show ψ.scopes.stack = [top] ++ σ.scopes.stack from hstack)
  obtain ⟨Δ, hΔ⟩ := ih' Γ hK hΓψ hready hknown.2.2
  obtain rfl : Γ = Δ := (hΔ.same trivial).symm
  have hχ : χ.position = σ.position + 1 := hloop.grows.2.trans
    (congrArg (· + 1) (Expr.compile_same hc).position)
  have hψp : ψ.placed.position = σ.position + body.length + 3 := by
    have := hbody.position
    simp only [CompileState.placed] at *
    omega
  have hempty : ψ.placed.placed.position = σ.position + body.length + 4 := congrArg (· + 1) hψp
  have hτ : τ.position = σ.position + body.length + 4 + ops.length := by
    rw [← hempty]
    exact hops.position
  have hlaid : Laid K (σ.position + body.length + 4) Γ ops Γ := hempty ▸ hΔ.laid
  refine ⟨Γ, .refl _, hΔ.tied, ?_, fun _ => rfl, ?_, fun _ _ h => (by cases h)⟩
  · rw [hχ, hψp, hempty, hτ]
    exact .loopElse (hl.init _) hl.next hl.rounds hl.avoids hΓ.values hl.le hlaid
  · have hsize : σ.scopes.slots.size ≤ (ψ.placed.left σ.scopes.stack).placed.scopes.slots.size :=
      Nat.le_trans (Grows.of_same (Expr.compile_same hc)).size_le
        (hloop.grows.1.trans (Grows.placed.trans hbody.grows)).size_le
    exact hl.spares_all _ _ (Spares.jump (Spares.jump (Spares.mono hΔ.writes hsize)))

theorem Fragment.canLay_bind {slot : Nat} (hc : e.compile.Yields σ c υ)
    (hslot : (Compile.declare name .unknown).Yields υ slot χ) :
    (Fragment.node out (.bind name e)).CanLay K σ [.store χ.points.size slot c false]
      χ.pointed := by
  intro Γ hK hΓ _ hknown
  simp only [Fragment.Known, Node.visits, List.forall_mem_cons] at hknown
  have ha := (Compile.declare_yields hslot).1
  have hp := (Compile.declare_grows hslot).2.1
  obtain ⟨hfits, hnew⟩ := Op.Fits.store hc ha hp rfl hK hΓ hknown.2
  have hset : Tied K χ.scopes (Γ.set slot (some .value)) :=
    (hΓ.of_same (Expr.compile_same hc)).declare ha rfl
  refine ⟨_, Γ.le_set _ (hΓ.fresh (Nat.le_of_eq hnew.symm)), hset,
    .op hfits rfl hΓ.values hset.values, fun h => h.elim, ?_, fun _ _ h => (by cases h)⟩
  exact Spares.nil.cons fun n hn => .inl (Nat.le_of_eq ((List.mem_singleton.1 hn).trans hnew).symm)

theorem Fragment.canLay_capture {buffer dest : Nat} {kind : DeclaredKind}
    (hbuffer : (Compile.temporary "let content").Yields σ buffer υ)
    (hbody : Emits (.scope (.block (.buffer buffer) "" b)) υ.placed body χ)
    (hdest : (Compile.declare name (.content kind)).Yields χ dest ψ)
    (ih : (Fragment.scope (.block (.buffer buffer) "" b)).CanLay K υ.placed body χ) :
    (Fragment.node out (.capture name kind b)).CanLay K σ
      (.beginCapture buffer :: (body ++ [.endCapture buffer dest kind.rendered])) ψ.placed := by
  intro Γ hK hΓ _ hknown
  simp only [Fragment.Known, Node.visits, List.forall_mem_cons] at hknown
  have hψ : K.Has ψ := ⟨hK.points, hK.size⟩
  have hχ := hψ.of_grows (Compile.declare_grows hdest).1
  have ha := (Compile.temporary_yields hbuffer).1
  have hd := (Compile.declare_yields hdest).1
  have hsize := hd.size
  have hslot := ha.slot
  have hslot' := hd.slot
  have hle : υ.scopes.slots.size ≤ χ.scopes.slots.size := hbody.grows.size_le
  have hasize := ha.size
  have hroom := hψ.size
  have hheader : K.header ≤ σ.scopes.slots.size := hΓ.sound.room
  have hunset : Tied K υ.scopes (Γ.set buffer none) := hΓ.temporary ha rfl none
  have hstack : χ.scopes.stack = υ.scopes.stack := hbody.stack
  -- the text is set where the block is closed, so that the scopes around it are as at its start
  have hset : χ.scopes.Sound K.header → Tied K ψ.scopes ((Γ.set buffer none).set dest (some .value)) :=
    fun hsound => (hunset.closed hsound hstack).declare hd rfl
  have hvalues : K.Values ((Γ.set buffer none).set dest (some .value)) := fun n type hn hlt => by
    rw [Typing.set_other _ _ (by omega), Typing.set_other _ _ (by omega)] at hn
    exact hΓ.values n type hn hlt
  obtain ⟨hlaid, hsound, hspares⟩ := Laid.captured kind.rendered hbuffer hbody ih hχ hΓ hknown.2 (by omega)
    (by omega) hvalues
  have hfresh : ∀ n, σ.scopes.slots.size ≤ n → Γ n = none := fun n hn => hΓ.fresh hn
  refine ⟨_, ?_, hset hsound, hlaid, fun h => h.elim, ?_, fun _ _ h => (by cases h)⟩
  · refine (Γ.le_set none (hfresh buffer (by omega))).trans (Typing.le_set _ ?_)
    rw [Typing.set_other _ _ (by omega)]
    exact hfresh dest (by omega)
  · exact hspares.captured (by omega) (by omega) (by omega) Spares.nil

theorem Fragment.canLay_selection {subject : Nat} {cs : List (List Expr × List Node)}
    {o : Option (List Node)} (hc : e.compile.Yields σ c υ)
    (hsubject : (Compile.temporary "switch subject").Yields υ subject χ)
    (hops : Emits (.cases out subject cs o) χ.pointed ops τ)
    (ih : (Fragment.cases out subject cs o).CanLay K χ.pointed ops τ) :
    (Fragment.selection out e cs o).CanLay K σ (.store χ.points.size subject c true :: ops) τ := by
  intro Γ hK hΓ hready hknown
  have hχ : K.Has χ.pointed := hK.of_grows hops.grows
  have ha := (Compile.temporary_yields hsubject).1
  have hp := (Compile.temporary_grows hsubject).2.1
  obtain ⟨hfits, hnew⟩ := Op.Fits.store hc ha hp rfl hχ hΓ hknown.1
  have hset : Tied K χ.scopes (Γ.set subject (some .plain)) :=
    (hΓ.of_same (Expr.compile_same hc)).temporary ha rfl _
  have hle : Γ.Le (Γ.set subject (some .plain)) :=
    Γ.le_set _ (hΓ.fresh (Nat.le_of_eq hnew.symm))
  obtain ⟨Δ, hΔ⟩ := ih _ hK hset.pointed ⟨hready.mono hle, Typing.set_same _ _ _⟩ hknown.2
  have hpos : χ.pointed.position = σ.position + 1 :=
    congrArg (· + 1) (hp.trans (Expr.compile_same hc).position)
  have hsize : σ.scopes.slots.size ≤ χ.pointed.scopes.slots.size := by
    have := ha.size
    have := ha.slot
    change _ ≤ χ.scopes.slots.size
    omega
  have hstore : Laid K σ.position Γ [.store χ.points.size subject c true]
      (Γ.set subject (some .plain)) := .op hfits rfl hΓ.values hset.values
  have hrest : Laid K (σ.position + 1) (Γ.set subject (some .plain)) ops Δ := hpos ▸ hΔ.laid
  refine ⟨Δ, hle.trans hΔ.le, hΔ.tied, .append hstore hrest,
    fun h => h.elim, ?_, fun _ _ h => (by cases h)⟩
  exact (Spares.mono hΔ.writes hsize).cons fun n hn =>
    .inl (Nat.le_of_eq ((List.mem_singleton.1 hn).trans hnew).symm)

theorem Fragment.canLay_call {target : CallTarget} {data : CallData} {as : List Arg}
    {sources : List (String × ArgSource)} {base : ParamsBase} {callee : Callee}
    (hargs : Emits (.args as sources) σ ops υ) (hbase : (Compile.paramsBase data).Yields υ base χ)
    (hcallee : (Compile.callee target).Yields χ callee ψ)
    (ih : (Fragment.args as sources).CanLay K σ ops υ) :
    (Fragment.call out target data as).CanLay K σ
      (ops ++ [.call ψ.points.size out callee base sources]) ψ.pointed := by
  intro Γ hK hΓ hready hknown
  have hsame := (Compile.IsQuiet.paramsBase _ _ _ _ hbase)
  have hsame' := hsame.trans (Compile.IsQuiet.callee _ _ _ _ hcallee)
  have hυ : K.Has υ := hK.of_grows ((Grows.of_same hsame').trans .pointed)
  obtain ⟨Δ, hΔ⟩ := ih Γ hυ hΓ trivial hknown.2.2
  have hout : out.Safe Δ := Output.Safe.mono hready hΔ.le
  have hψ : Tied K ψ.scopes Δ := hΔ.tied.of_same hsame'
  have hsafe : (Op.call ψ.points.size out callee base sources).Safe K.known K.size Δ :=
    ⟨hout, Compile.paramsBase_reads hbase hΔ.tied.typed hknown.2.1,
      hΔ.sources as sources rfl,
      Compile.callee_reads hcallee (hsame.scopes ▸ hΔ.tied.typed) hknown.1⟩
  have hpos : ψ.position = σ.position + ops.length := hsame'.position.trans hargs.position
  have hwrites : ∀ n ∈ (Op.call ψ.points.size out callee base sources).writes, out = .buffer n :=
    fun n hn => Op.out_of_writes (.inr (.inr ⟨_, _, _, _, rfl⟩)) hn
  refine ⟨Δ, hΔ.le, hψ.pointed, .append hΔ.laid (.op ?_ rfl hΔ.tied.values hΔ.tied.values),
    fun h => h.elim, Spares.append (fun op hop n hn => ?_)
      (Spares.nil.cons fun n hn => .inr (hwrites n hn)), fun _ _ h => (by cases h)⟩
  · exact .pointed hψ.toHolds hK hpos rfl hsafe fun n hn =>
      hψ.toHolds.header_le_out hout n (hwrites n hn)
  · exact (hΔ.writes op hop n hn).imp id fun h => by cases h

theorem Fragment.canLay_content {buffer : Nat} {kind : DeclaredKind} {as : List Arg}
    {sources : List (String × ArgSource)}
    (hbuffer : (Compile.temporary "call param").Yields σ buffer υ)
    (hbody : Emits (.scope (.block (.buffer buffer) "" b)) υ.placed body χ)
    (hops : Emits (.args as sources) χ.placed ops τ)
    (ih : (Fragment.scope (.block (.buffer buffer) "" b)).CanLay K υ.placed body χ)
    (ih' : (Fragment.args as sources).CanLay K χ.placed ops τ) :
    (Fragment.args (.content name kind b :: as) ((name, .slot buffer) :: sources)).CanLay K σ
      (.beginCapture buffer :: (body ++ .endCapture buffer buffer kind.rendered :: ops)) τ := by
  intro Γ hK hΓ _ hknown
  simp only [Fragment.Known, Node.visitsArgs, List.forall_mem_append] at hknown
  have hχ : K.Has χ := hK.of_grows (Grows.placed.trans hops.grows)
  have ha := (Compile.temporary_yields hbuffer).1
  have hslot := ha.slot
  have hasize := ha.size
  have hle : υ.scopes.slots.size ≤ χ.scopes.slots.size := hbody.grows.size_le
  have hroom := hχ.size
  have hheader : K.header ≤ σ.scopes.slots.size := hΓ.sound.room
  have hset : Tied K υ.scopes (Γ.set buffer (some .value)) := hΓ.temporary ha rfl _
  have heq : (Γ.set buffer none).set buffer (some .value) = Γ.set buffer (some .value) :=
    Typing.set_set _ _ _ _
  obtain ⟨hlaid, hsound, hspares⟩ := Laid.captured kind.rendered hbuffer hbody ih hχ hΓ
    hknown.1 (by omega) (by omega) (heq ▸ hset.values)
  rw [heq] at hlaid
  have hΓχ : Tied K χ.placed.scopes (Γ.set buffer (some .value)) := hset.closed hsound hbody.stack
  obtain ⟨Δ, hΔ⟩ := ih' _ hK hΓχ trivial hknown.2
  have hχp : χ.placed.position = σ.position +
      (Op.beginCapture buffer :: (body ++ [.endCapture buffer buffer kind.rendered])).length := by
    have := hbody.position
    have := (Compile.temporary_grows hbuffer).2.1
    simp only [CompileState.placed, List.length_cons, List.length_append, List.length_nil] at *
    omega
  refine ⟨Δ, (Γ.le_set _ (hΓ.fresh (by omega))).trans hΔ.le, hΔ.tied, ?_, fun h => h.elim, ?_, ?_⟩
  · have := Laid.append hlaid (hχp ▸ hΔ.laid)
    rwa [List.cons_append, List.append_assoc] at this
  · exact hspares.captured (by omega) (by omega) (by omega) (Spares.mono hΔ.writes (by
      change _ ≤ χ.scopes.slots.size
      omega))
  · rintro _ _ ⟨⟩ arg harg
    cases harg with
    | head => exact hΔ.le _ _ (Typing.set_same _ _ _)
    | tail _ harg => exact hΔ.sources as sources rfl arg harg

end Statements

section Known

variable {known : String → UInt64 → Prop} {out : Output} {e : Expr} {bs : List (Expr × List Node)}
  {cs : List (List Expr × List Node)} {o : Option (List Node)}

theorem Fragment.Known.branch (h : (Fragment.node out (.branch bs o)).Known known) :
    (Fragment.branches out bs o).Known known := by
  cases o with
  | none =>
    simp only [Known, Node.visits, List.forall_mem_cons, List.append_nil] at h
    exact ⟨h.2, fun _ hb => (by cases hb)⟩
  | some b =>
    simp only [Known, Node.visits, List.forall_mem_cons, List.forall_mem_append] at h
    exact ⟨h.2.1, fun _ hb => Option.some.inj hb ▸ h.2.2⟩

theorem Fragment.Known.switch (h : (Fragment.node out (.switch e cs o)).Known known) :
    (Fragment.selection out e cs o).Known known := by
  cases o with
  | none =>
    simp only [Known, Node.visits, List.forall_mem_cons, List.forall_mem_append,
      List.append_nil] at h
    exact ⟨h.2.1, h.2.2, fun _ hb => (by cases hb)⟩
  | some b =>
    simp only [Known, Node.visits, List.forall_mem_cons, List.forall_mem_append] at h
    exact ⟨h.2.1.1, h.2.1.2, fun _ hb => Option.some.inj hb ▸ h.2.2⟩

end Known

/-- Whatever the compiler emits for a fragment is laid out. -/
theorem Emits.canLay {K : Plan} {f : Fragment} {σ τ : CompileState} {ops : List Op}
    (h : Emits f σ ops τ) : f.CanLay K σ ops τ := by
  -- What is sure before a fragment depends on where it stands, so each case is for any typing.
  induction h with
  | noText => exact fun Γ _ hΓ _ _ => ⟨Γ, .nil hΓ fun _ _ h => (by cases h)⟩
  | absent => exact fun Γ _ hΓ _ _ => ⟨Γ, .nil hΓ fun _ _ h => (by cases h)⟩
  | noChildren => exact fun Γ _ hΓ _ _ => ⟨Γ, .nil hΓ fun _ _ h => (by cases h)⟩
  | noArgs =>
    intro Γ _ hΓ _ _
    exact ⟨Γ, .nil hΓ fun _ _ h => by cases h; rfl⟩
  | @text s out σ _ =>
    intro Γ hK hΓ hready _
    have hwrites : ∀ n ∈ (Op.text σ.points.size out s).writes, out = .buffer n := fun n hn =>
      Op.out_of_writes (.inl ⟨_, _, rfl⟩) hn
    exact ⟨Γ, .writing (.pointed hΓ.toHolds hK rfl rfl hready fun n hn =>
      hΓ.toHolds.header_le_out hready n (hwrites n hn)) rfl hΓ.pointed hwrites
        fun _ _ h => (by cases h)⟩
  | @print out e σ c υ hc =>
    intro Γ hK hΓ hready hknown
    simp only [Fragment.Known, Node.visits, List.forall_mem_cons] at hknown
    have hs := Expr.compile_same hc
    have hwrites : ∀ n ∈ (Op.print υ.points.size out c).writes, out = .buffer n := fun n hn =>
      Op.out_of_writes (.inr (.inl ⟨_, _, rfl⟩)) hn
    exact ⟨Γ, .writing (.pointed (hΓ.of_same hs).toHolds hK hs.position rfl
      ⟨hready, Expr.compile_reads hc hΓ.typed hknown.2⟩ fun n hn =>
        hΓ.toHolds.header_le_out hready n (hwrites n hn)) rfl (hΓ.of_same hs).pointed hwrites
          fun _ _ h => (by cases h)⟩
  | raw _ ih | done _ ih =>
    exact ih.as (.refl _) (fun _ h => h) (fun _ => trivial) rfl (fun h => h.elim)
      fun _ _ h => (by cases h)
  | branch _ ih =>
    exact ih.as (.refl _) (fun _ h => h) (·.branch) rfl (fun h => h.elim) fun _ _ h => (by cases h)
  | switch _ ih =>
    exact ih.as (.refl _) (fun _ h => h) (·.switch) rfl (fun h => h.elim) fun _ _ h => (by cases h)
  | each hc hloop hbody hstack ih => exact Fragment.canLay_each hc hloop hbody hstack ih
  | eachElse hc hloop hbody hstack hops ih ih' =>
    exact Fragment.canLay_eachElse hc hloop hbody hstack hops ih ih'
  | bind hc hslot => exact Fragment.canLay_bind hc hslot
  | capture hbuffer hbody hdest ih => exact Fragment.canLay_capture hbuffer hbody hdest ih
  | invoke _ ih =>
    refine ih.as (.refl _) (fun _ h => h) (fun hknown => ?_) rfl (fun h => h.elim)
      fun _ _ h => (by cases h)
    simp only [Fragment.Known, Node.visits, List.forall_mem_cons, List.forall_mem_append] at hknown
    exact ⟨hknown.2.2.1.1, hknown.2.2.1.2, hknown.2.2.2⟩
  | @tag out name σ start υ ns body χ selfClosing stop τ hstart hbody hstop ih ih' ih'' =>
    have hrest : (Fragment.node out (.tag name ns selfClosing)).CanLay K υ (body ++ stop) τ := by
      refine ih'.append hbody ih'' hstop.grows rfl rfl
        (fun _ h => ⟨h, fun _ => Output.Safe.mono h⟩) (fun hknown => ⟨?_, trivial⟩) (fun h => h)
        fun _ _ h => (by cases h)
      simp only [Fragment.Known, Node.visits, List.forall_mem_cons] at hknown
      exact hknown.2
    rw [List.append_assoc]
    exact ih.append hstart hrest (hbody.grows.trans hstop.grows) rfl rfl
      (fun _ h => ⟨h, fun _ => Output.Safe.mono h⟩) (fun hknown => ⟨trivial, hknown⟩) (fun h => h)
      fun _ _ h => (by cases h)
  | join _ ih =>
    refine ih.as (.refl _) (fun _ h => h) (fun hknown => ?_) rfl (fun h => h.elim)
      fun _ _ h => (by cases h)
    simp only [Fragment.Known, Node.visitsAll, List.forall_mem_append] at hknown
    exact hknown.2
  | @cons out pending σ before υ n ops χ ns rest τ htext hn hns ih ih' ih'' =>
    have hrest : (Fragment.block out pending (n :: ns)).CanLay K υ (ops ++ rest) τ := by
      refine ih'.append hn ih'' hns.grows rfl rfl (fun _ h => ⟨h, fun _ => Output.Safe.mono h⟩)
        (fun hknown => ?_) (fun h => h) fun _ _ h => (by cases h)
      simp only [Fragment.Known, Node.visitsAll, List.forall_mem_append] at hknown
      exact hknown
    rw [List.append_assoc]
    exact ih.append htext hrest (hn.grows.trans hns.grows) rfl rfl
      (fun _ h => ⟨h, fun _ => Output.Safe.mono h⟩) (fun hknown => ⟨trivial, hknown⟩) (fun h => h)
      fun _ _ h => (by cases h)
  | present _ ih =>
    exact ih.as (.refl _) (fun _ h => h) (fun hknown => hknown _ rfl) rfl (fun _ => trivial)
      fun _ _ h => (by cases h)
  | otherwise _ ih =>
    exact ih.as (.refl _) (fun _ h => h) And.right rfl (fun _ => trivial) fun _ _ h => (by cases h)
  | noCase _ ih =>
    exact ih.as (.refl _) (fun _ h => h.1) And.right rfl (fun _ => trivial) fun _ _ h => (by cases h)
  | @test out b body χ bs o rest τ e σ c υ hc hbody hrest ih ih' =>
    intro Γ hK hΓ hready hknown
    simp only [Fragment.Known, Node.visitsBranches, List.forall_mem_append] at hknown
    have hs := Expr.compile_same hc
    have hχ : K.Has χ := hK.of_grows (Grows.placed.trans hrest.grows)
    have hΓυ := hΓ.of_same hs
    obtain ⟨Δ, hΔ⟩ := ih Γ hχ hΓυ.pointed hready hknown.1.1.2
    obtain rfl : Γ = Δ := (hΔ.same trivial).symm
    obtain ⟨Θ, hΘ⟩ := ih' Γ hK hΔ.tied.placed hready ⟨hknown.1.2, hknown.2⟩
    obtain rfl : Γ = Θ := (hΘ.same trivial).symm
    exact ⟨Γ, .choice hs hbody hrest (hχ.of_grows hbody.grows) hΓυ
      (Expr.compile_reads hc hΓ.typed hknown.1.1.1) rfl rfl rfl hΔ hΘ rfl rfl
        fun _ _ h => (by cases h)⟩
  | selection hc hsubject hops ih => exact Fragment.canLay_selection hc hsubject hops ih
  | @«case» es σ values υ out b body χ subject cs o rest τ hvalues hbody hrest ih ih' =>
    intro Γ hK hΓ hready hknown
    simp only [Fragment.Known, Node.visitsCases, List.forall_mem_append] at hknown
    have hs : σ.Same υ := Compile.IsQuiet.all _ _ _ _ hvalues
    have hχ : K.Has χ := hK.of_grows (Grows.placed.trans hrest.grows)
    have hΓυ := hΓ.of_same hs
    obtain ⟨Δ, hΔ⟩ := ih Γ hχ hΓυ.pointed hready.1 hknown.1.1.2
    obtain rfl : Γ = Δ := (hΔ.same trivial).symm
    obtain ⟨Θ, hΘ⟩ := ih' Γ hK hΔ.tied.placed hready ⟨hknown.1.2, hknown.2⟩
    obtain rfl : Γ = Θ := (hΘ.same trivial).symm
    exact ⟨Γ, .choice hs hbody hrest (hχ.of_grows hbody.grows) hΓυ
      ⟨hready.2, Expr.compileAll_reads hvalues hΓ.typed hknown.1.1.1⟩ rfl rfl rfl hΔ hΘ rfl rfl
        fun _ _ h => (by cases h)⟩
  | call hargs hbase hcallee ih => exact Fragment.canLay_call hargs hbase hcallee ih
  | @value as sources υ ops τ name e c σ hc hargs ih =>
    intro Γ hK hΓ hready hknown
    simp only [Fragment.Known, Node.visitsArgs, List.forall_mem_append] at hknown
    have hs := Expr.compile_same hc
    obtain ⟨Δ, hΔ⟩ := ih Γ hK (hΓ.of_same hs) trivial hknown.2
    refine ⟨Δ, hΔ.le, hΔ.tied, hs.position ▸ hΔ.laid, fun h => h.elim, ?_, ?_⟩
    · have hsize : σ.scopes.slots.size ≤ υ.scopes.slots.size := (Grows.of_same hs).size_le
      exact Spares.mono hΔ.writes hsize
    · rintro _ _ ⟨⟩ arg harg
      cases harg with
      | head => exact (Expr.compile_reads hc hΓ.typed hknown.1).mono hΔ.le
      | tail _ harg => exact hΔ.sources as sources rfl arg harg
  | content hbuffer hbody hops ih ih' => exact Fragment.canLay_content hbuffer hbody hops ih ih'
  | keyed hc _ ih =>
    refine ih.as (Expr.compile_same hc) (fun _ h => h) (fun hknown => ?_) rfl (fun h => h.elim)
      fun _ _ h => (by cases h)
    simp only [Fragment.Known, Node.visitsAll, List.forall_mem_append] at hknown
    exact hknown.2
  | child hn hns ih ih' =>
    refine ih.append hn ih' hns.grows rfl rfl (fun _ h => ⟨h, fun _ => Output.Safe.mono h⟩)
      (fun hknown => ?_) (fun h => h) fun _ _ h => (by cases h)
    simp only [Fragment.Known, Node.visitsAll, List.forall_mem_append] at hknown
    exact hknown
  | @scope f ops τ top rest σ h hstack ih =>
    intro Γ hK hΓ hready hknown
    obtain ⟨Δ, hΔ⟩ := ih Γ ⟨hK.points, hK.size⟩ hΓ.enter hready hknown
    obtain rfl := h.grows.stack hstack
    refine ⟨Γ, .refl Γ, ?_, .weaken hΔ.laid hΔ.le, fun _ => rfl, hΔ.writes,
      fun _ _ h => (by cases h)⟩
    exact hΓ.leave hΔ.tied.sound (show τ.scopes.stack = [top] ++ σ.scopes.stack from hstack)

end ResumableTemplates
