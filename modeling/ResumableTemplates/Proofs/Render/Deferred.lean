import ResumableTemplates.Proofs.Render.Schedules

/-! Deferred values: fields of a record whose values only providers have so far. Whoever looks at a value
forces it first, so a render that is given them writes what one with the values themselves does; it
only stops and is resumed more often. -/
namespace ResumableTemplates

namespace Value

/-- Holds of a value that stands for another: the value itself, or providers with it behind them. No
default is taken for a value that is deferred, so it must not be null. -/
def StandsFor (u v : Value) : Prop := u = v ∨ u.forced = v ∧ v ≠ null ∧ v.IsPlain

theorem StandsFor.alike {u v : Value} (h : u.StandsFor v) : v.Alike False u := by
  obtain rfl | ⟨rfl, hnull, hplain⟩ := h
  · exact .refl u
  · refine ⟨forced_forced u, .inl ?_⟩
    cases u with
    | lazy i u =>
      show (lazy i u).forced.isNull = false
      cases h : (lazy i u).forced <;> first | rfl | exact absurd h hnull
    | _ => rfl

end Value

namespace Record

theorem Alike.of_forall₂ {defers : Prop} {r q : Record}
    (h : List.Forall₂ (fun f g => f.1 = g.1 ∧ f.2.Alike defers g.2) r q) : Alike defers r q := by
  intro k
  induction h with
  | nil => exact .inl ⟨rfl, rfl⟩
  | @cons f g r q hfg _ ih =>
    obtain ⟨l, v⟩ := f
    obtain ⟨l', u⟩ := g
    obtain ⟨rfl, hv⟩ := hfg
    simp only [field?]
    split
    · exact .inr ⟨v, u, rfl, rfl, hv⟩
    · exact ih

def StandsFor (q r : Record) : Prop := List.Forall₂ (fun g f => g.1 = f.1 ∧ g.2.StandsFor f.2) q r

theorem StandsFor.alike {q r : Record} (h : q.StandsFor r) : Alike False r q := by
  refine .of_forall₂ (List.Forall₂.flip (h.imp fun g f hgf => ?_))
  exact ⟨hgf.1.symm, hgf.2.alike⟩

end Record

mutual

theorem Value.exists_asks : (v : Value) → ∃ n, ∀ m, n ≤ m → v.AsksOnly (· < m)
  | .list vs => exists_asksAll vs
  | .record fs => exists_asksFields fs
  | .lazy i v =>
    have ⟨n, h⟩ := v.exists_asks
    ⟨max n (i + 1), fun m hm => ⟨by omega, h m (by omega)⟩⟩
  | .null | .bool _ | .int _ | .float _ | .str _ | .content .. | .template .. | .element _ =>
    ⟨0, fun _ _ => trivial⟩

theorem Value.exists_asksAll : (vs : List Value) → ∃ n, ∀ m, n ≤ m → AsksOnlyAll (· < m) vs
  | [] => ⟨0, fun _ _ => trivial⟩
  | v :: vs =>
    have ⟨n, h⟩ := v.exists_asks
    have ⟨k, hs⟩ := exists_asksAll vs
    ⟨max n k, fun m hm => ⟨h m (by omega), hs m (by omega)⟩⟩

theorem Value.exists_asksFields :
    (fs : List (String × Value)) → ∃ n, ∀ m, n ≤ m → AsksOnlyFields (· < m) fs
  | [] => ⟨0, fun _ _ => trivial⟩
  | (_, v) :: fs =>
    have ⟨n, h⟩ := v.exists_asks
    have ⟨k, hs⟩ := exists_asksFields fs
    ⟨max n k, fun m hm => ⟨h m (by omega), hs m (by omega)⟩⟩

end

namespace Schedule

/-- Holds of the schedules by which each provider becomes ready some time, and nothing else has to
wait. -/
structure Patient (σ : Schedule) : Prop where
  ready : ∀ p, ∃ n, ∀ asked, n ≤ asked → σ.isReady p asked = true
  sink : σ.sink.NeverWaits

variable {env : Env} {units : Nat → Prop}

/-- Deferred values do not show: a render that is given them and one that is given the values
themselves write the same chunks and end the same way once they stop. If each provider becomes ready
some time, and the sink never has the render wait, it does stop. -/
theorem deferred (hlib : env.library.IsCompiled) (hinv : env.Involves units) {unit : Nat}
    {name : String} (hu : units unit) (hc : env.library.compiled? unit name ≠ none)
    {params params' injected : Record} (hp : params'.StandsFor params)
    (hi : injected.StandsFor env.injected) {s : RenderState} (hs : s.capture = none) :
    (∀ (σ τ : Schedule) (fuel fuel' : Nat) (x y : Except Stop (Option Nat)) (u v : RenderState),
      σ.drive env (.compiled unit name) params fuel s = (x, u) →
      τ.drive { env with injected } (.compiled unit name) params' fuel' s = (y, v) →
      u.Accepted → v.Accepted → x ≠ .ok none → y ≠ .ok none →
        v.chunks = u.chunks ∧ ∃ r, Render.Stopped r x ∧ Render.Stopped r y) ∧
    ∀ τ : Schedule, τ.Patient → ∃ fuel, ∀ y v,
      τ.drive { env with injected } (.compiled unit name) params' fuel s = (y, v) →
        v.Accepted → y ≠ .ok none := by
  have hinv' : Env.Involves { env with injected } units :=
    ⟨hinv.alive, hinv.template, hinv.delegate⟩
  have hlib' : Library.IsCompiled ({ env with injected } : Env).library := hlib
  refine ⟨fun σ τ fuel fuel' x y u v hx hy hu' hv hne hne' => ?_, fun τ hτ => ?_⟩
  · obtain ⟨deeds, r, hr, hdeeds, hl⟩ | ⟨rfl, -⟩ :=
      leads_or_waits hlib hinv hu hc params.asksOnly_all (Record.asksOnly_all _) hs hx hu'
    · obtain ⟨deeds', r', hr', hdeeds', hl'⟩ | ⟨rfl, -⟩ :=
        leads_or_waits hlib' hinv' hu hc params'.asksOnly_all (Record.asksOnly_all _) hs hy hv
      · obtain ⟨cert⟩ := hlib.certificate
        -- Both do what their templates lead to, in worlds that are alike; no null is deferred,
        -- so no parameter is kept from its default.
        have halike : World.Alike False (env.world s.bindings)
            (Env.world { env with injected } s.bindings) :=
          ⟨rfl, rfl, rfl, rfl, rfl, rfl, hi.alike⟩
        have hwork : Work.Alike False cert (.template (.compiled unit name) none params)
            (.template (.compiled unit name) none params') :=
          .template (fun _ h => (by cases h)) hp.alike
        obtain ⟨e, hl'', he, -⟩ := hl.alike halike rfl (Setting.tolerates_all _) hwork False.elim
        obtain ⟨rfl, he'⟩ := hl'.deterministic hl''
        have hrr : End.of r' = End.of r := by
          rw [he']
          cases r <;> cases he <;> rfl
        cases End.of_injective hrr
        refine ⟨?_, _, hr, hr'⟩
        rw [RenderState.chunks_of_deeds hdeeds, RenderState.chunks_of_deeds hdeeds']
      · exact absurd rfl hne'
    · exact absurd rfl hne
  · obtain ⟨n, hn⟩ := Value.exists_asksFields params'
    obtain ⟨m, hm⟩ := Value.exists_asksFields injected
    choose patience hready using hτ.ready
    let b : Budget (Env.under { env with injected } τ) (· < max n m) :=
      .patient patience (max n m) hready
    refine ⟨b.left { s with sink := τ.sink, holdsSink := false }, fun y v hy hv => ?_⟩
    obtain ⟨_, _, hr, -⟩ | ⟨-, hleft⟩ := leads_or_waits hlib' hinv' hu hc
      (Value.asksOnlyFields_iff.1 (hn _ (Nat.le_max_left n m)))
      (Value.asksOnlyFields_iff.1 (hm _ (Nat.le_max_right n m))) hs hy hv
    · rintro rfl
      cases hr
    · exact absurd (hleft b hτ.sink) (Nat.lt_irrefl _)

/-- A letter to somebody whose name two providers have still to bring is the letter to them. -/
theorem deferred_letter :
    let env := Env.plain .letter 1
    let letter : TemplateRef := .compiled 0 "letter"
    let params : Record := [("name", .str "Ada")]
    let params' : Record := [("name", .lazy 0 (.lazy 1 (.str "Ada")))]
    let s := RenderState.initial (.buffer "")
    let fast : Schedule := ⟨fun _ _ => true, .buffer ""⟩
    let slow : Schedule := ⟨fun _ asked => 0 < asked, .buffer ""⟩
    env.library.IsCompiled ∧ env.Involves (fun _ => True) ∧ params'.StandsFor params ∧
      (fast.drive env letter params 0 s).1.toOption.join = some 0 ∧
      (slow.drive env letter params' 2 s).1.toOption.join = some 2 ∧
      (slow.drive env letter params' 2 s).2.chunks = (fast.drive env letter params 0 s).2.chunks := by
  intro env letter params params' s fast slow
  have hletter : env.library.compiled? 0 "letter" ≠ none := fun h => by cases h
  have hparams : params'.StandsFor params :=
    .cons ⟨rfl, .inr ⟨rfl, fun h => (by cases h), trivial⟩⟩ .nil
  have hfast : (fast.drive env letter params 0 s).1.toOption.join = some 0 := by decide +kernel
  have hslow : (slow.drive env letter params' 2 s).1.toOption.join = some 2 := by decide +kernel
  have hne : (fast.drive env letter params 0 s).1 ≠ .ok none := fun h => by
    rw [h] at hfast
    cases hfast
  have hne' : (slow.drive env letter params' 2 s).1 ≠ .ok none := fun h => by
    rw [h] at hslow
    cases hslow
  have hacc : (fast.drive env letter params 0 s).2.Accepted := by decide +kernel
  have hacc' : (slow.drive env letter params' 2 s).2.Accepted := by decide +kernel
  obtain ⟨hchunks, -⟩ := (deferred Library.letter_isCompiled (.plain _ _) trivial hletter hparams .nil
    (s := s) rfl).1 fast slow 0 2 _ _ _ _ (Prod.eta _).symm (Prod.eta _).symm hacc hacc' hne hne'
  exact ⟨Library.letter_isCompiled, .plain _ _, hparams, hfast, hslow, hchunks⟩

end Schedule

end ResumableTemplates
