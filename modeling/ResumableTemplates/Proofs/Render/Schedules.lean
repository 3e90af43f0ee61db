import Mathlib.Algebra.Order.BigOperators.Group.Finset
import ResumableTemplates.Proofs.Compile.Certified
import ResumableTemplates.Proofs.Render.OneShot
import ResumableTemplates.Proofs.Render.Drive

/-! Schedules: when providers have their values, and when a sink takes what is written. They decide how
often a render of compiled templates pauses and where, and nothing else. Main statement: whatever the
schedule, a render that is resumed until it stops writes the same chunks and ends the same way. -/
namespace ResumableTemplates

namespace Render

def drive (env : Env) (t : TemplateRef) (params : Record) (fuel : Nat) : Render (Option Nat) := do
  finish env t params fuel 0 (← start env t params)

inductive Stopped : Except RenderError Unit → Except Stop (Option Nat) → Prop
  | done (n : Nat) : Stopped (.ok ()) (.ok (some n))
  | failed (e : RenderError) : Stopped (.error e) (.error (.failure e))

end Render

def Event.refusal? : Event → Option SinkError
  | .append _ (.error e) => some e
  | _ => none

/-- Holds of a state up to which the sink has refused nothing. -/
def RenderState.Accepted (s : RenderState) : Prop := ∀ e ∈ s.events, e.refusal? = none

instance (s : RenderState) : Decidable s.Accepted :=
  inferInstanceAs (Decidable (∀ e ∈ s.events, e.refusal? = none))

theorem RenderState.Accepted.not_refused {s : RenderState} {e : SinkError} (h : s.Accepted) :
    ¬ s.Refused e := by
  rintro ⟨chunk, before, he⟩
  cases h (.append chunk (.error e)) (he ▸ List.mem_cons_self)

def End.of : Except RenderError Unit → End
  | .ok _ => .done
  | .error e => .failed e

theorem End.of_injective : Function.Injective End.of := by
  intro r q h
  cases r <;> cases q <;> cases h <;> rfl

namespace Setting

variable {lib : Library} {known : Nat → String → UInt64 → Prop} {S : Setting lib known}

/-- A render that is driven does what its template leads to, unless it ends for no reason of its own or
is put off too often. -/
theorem drive_stops {unit : Nat} {name : String} (hc : lib.compiled? unit name ≠ none)
    (hu : S.units unit) {params : Record} (hp : Record.All S.Fits params) {s u : RenderState}
    (hcap : s.capture = none) (hs : S.env.world s.bindings = S.world) {fuel : Nat}
    {x : Except Stop (Option Nat)}
    (hrun : Render.drive S.env (.compiled unit name) params fuel s = (x, u)) :
    (∃ deeds r, Render.Stopped r x ∧ u.deeds = s.deeds ++ deeds ∧
      Leads S.world s.depth (.template (.compiled unit name) none params) deeds (.of r)) ∨
    (∃ e, x = .error (.failure e) ∧ u.Broken S.env.isAlive S.units e) ∨
    x = .ok none ∧ ∀ b : Budget S.env S.asks, b.fits s.sink → fuel < b.left s := by
  have hdrive : S.Finished _ s (fuel + 1)
      (Render.drive S.env (.compiled unit name) params fuel s) :=
    drive_leads hc ‹_› hp fuel hcap hs rfl
  rw [hrun] at hdrive
  cases hdrive with
  | done hw hl => exact .inl ⟨_, .ok (), .done _, hw.deeds, hl⟩
  | failed hw hl => exact .inl ⟨_, .error _, .failed _, hw.deeds, hl⟩
  | broken _ hbreak => exact .inr (.inl ⟨_, rfl, hbreak⟩)
  | givenUp hleft => exact .inr (.inr ⟨rfl, hleft⟩)

end Setting

/-- When providers have their values, and a sink that decides when it takes what is written. -/
structure Schedule where
  isReady : (provider asked : Nat) → Bool
  sink : Sink

def Sink.NeverWaits : Sink → Prop
  | buffer _ | capture _ | writer _ => True
  | throttled t => t.pauseBefore = []
  | scripted s => (∀ n, s.refuses n = false) ∧ ∀ n, s.holdsAfter n = false

def Env.under (env : Env) (σ : Schedule) : Env := { env with isReady := σ.isReady }

namespace Schedule

structure NeverWaits (σ : Schedule) : Prop where
  ready : ∀ provider asked, σ.isReady provider asked = true
  sink : σ.sink.NeverWaits

def drive (σ : Schedule) (env : Env) (t : TemplateRef) (params : Record) (fuel : Nat)
    (s : RenderState) : Except Stop (Option Nat) × RenderState :=
  Render.drive (env.under σ) t params fuel { s with sink := σ.sink }

end Schedule

theorem Sink.NeverWaits.poll {k : Sink} (h : k.NeverWaits) :
    k.poll.2.NeverWaits ∧ k.poll.1 ≠ .notReady := by
  cases k with
  | throttled t =>
    have hpoll : t.poll = (.ready, t) := by simp [Throttle.poll, show t.pauseBefore = [] from h]
    simp [Sink.poll, hpoll, h]
  | scripted s => simpa [Sink.poll, Script.poll, NeverWaits, h.1] using h
  | _ => simp [Sink.poll, NeverWaits]

theorem Sink.NeverWaits.append {k : Sink} (h : k.NeverWaits) (chunk : String) :
    (k.append chunk).2.NeverWaits ∧ (k.append chunk).1 ≠ .ok .notReady := by
  cases k with
  | throttled t => simpa [Sink.append, Throttle.append, NeverWaits] using h
  | scripted s =>
    simp only [Sink.append, Script.append]
    split <;> simpa [NeverWaits, h.2] using h
  | writer w =>
    simp only [Sink.append]
    cases (w.append chunk.toUTF8.data).1 <;> simp [NeverWaits, Except.map]
  | _ => simp [Sink.append, NeverWaits]

def Budget.idle {env : Env} {asks : Nat → Prop} (hready : ∀ p n, asks p → env.isReady p n = true) :
    Budget env asks where
  fits := Sink.NeverWaits
  ofSink _ := 0
  ofProviders _ := 0
  poll _ h := ⟨h.poll.1, Nat.le_refl 0, fun hnot => absurd hnot h.poll.2⟩
  append _ c h := ⟨(h.append c).1, Nat.le_refl 0, fun hnot => absurd hnot (h.append c).2⟩
  ask p forces hp := by simp [askProvider, hready p _ hp]

def notReadyYet (patience : Nat → Nat) (providers : Nat) (forces : Table Nat Nat) : Nat :=
  (Finset.range providers).sum fun p => patience p - (forces.find? p).getD 0

theorem notReadyYet_ask {patience : Nat → Nat} {providers p : Nat} {isReady : Nat → Bool}
    (hready : ∀ asked, patience p ≤ asked → isReady asked = true) (hp : p < providers)
    (forces : Table Nat Nat) :
    notReadyYet patience providers (askProvider isReady p forces).2 ≤
        notReadyYet patience providers forces ∧
      ((askProvider isReady p forces).1 = false →
        notReadyYet patience providers (askProvider isReady p forces).2 <
          notReadyYet patience providers forces) := by
  have hle : ∀ q ∈ Finset.range providers,
      patience q - ((askProvider isReady p forces).2.find? q).getD 0 ≤
        patience q - (forces.find? q).getD 0 := by
    intro q _
    by_cases hqp : q = p
    · subst hqp
      simp only [askProvider, Table.find?_insert, if_true, Option.getD_some]
      omega
    · simp [askProvider, hqp]
  refine ⟨Finset.sum_le_sum hle, fun hnot => Finset.sum_lt_sum hle ⟨p, Finset.mem_range.2 hp, ?_⟩⟩
  have hlt : (forces.find? p).getD 0 < patience p := by
    by_contra hge
    rw [askProvider, hready _ (Nat.not_lt.1 hge)] at hnot
    cases hnot
  simp only [askProvider, Table.find?_insert, if_true, Option.getD_some]
  omega

def Budget.patient {env : Env} (patience : Nat → Nat) (providers : Nat)
    (hready : ∀ p asked, patience p ≤ asked → env.isReady p asked = true) :
    Budget env (· < providers) where
  fits := Sink.NeverWaits
  ofSink _ := 0
  ofProviders := notReadyYet patience providers
  poll _ h := ⟨h.poll.1, Nat.le_refl 0, fun hnot => absurd hnot h.poll.2⟩
  append _ c h := ⟨(h.append c).1, Nat.le_refl 0, fun hnot => absurd hnot (h.append c).2⟩
  ask p forces hp := notReadyYet_ask (hready p) hp forces

namespace Schedule

variable {env : Env} {units : Nat → Prop}

/-- Whatever the schedule, a render of compiled templates does what its template leads to, unless it ends
for no reason of its own or is put off too often. When providers have their values, and what the sink
does, is no part of the world that it takes place in. -/
theorem stops (hlib : env.library.IsCompiled) (hcon : env.Confines units) {unit : Nat} {name : String}
    (hu : units unit) (hc : env.library.compiled? unit name ≠ none) {asks : Nat → Prop}
    {params : Record} (hp : Record.All (Value.AsksOnly asks) params)
    (hi : Record.All (Value.AsksOnly asks) env.injected) {s : RenderState} (hs : s.capture = none)
    {σ : Schedule} {fuel : Nat} {x : Except Stop (Option Nat)} {u : RenderState}
    (hrun : σ.drive env (.compiled unit name) params fuel s = (x, u)) :
    (∃ deeds r, Render.Stopped r x ∧ u.deeds = s.deeds ++ deeds ∧
      Leads (env.world s.bindings) s.depth (.template (.compiled unit name) none params) deeds
        (.of r)) ∨
    (∃ e, x = .error (.failure e) ∧ u.Broken env.isAlive units e) ∨
    x = .ok none ∧ ∀ b : Budget (env.under σ) asks, b.fits σ.sink →
      fuel < b.left { s with sink := σ.sink, holdsSink := false } := by
  obtain ⟨cert⟩ := hlib.certificate
  let S : Setting env.library fun _ _ _ => True :=
    ⟨env.under σ, s.bindings, cert, units, asks, rfl, ⟨hcon.template, hcon.delegate⟩, hi⟩
  exact S.drive_stops hc hu hp (s := { s with sink := σ.sink, holdsSink := false }) hs rfl hrun

theorem leads_or_waits (hlib : env.library.IsCompiled) (hinv : env.Involves units) {unit : Nat}
    {name : String} (hu : units unit) (hc : env.library.compiled? unit name ≠ none)
    {asks : Nat → Prop} {params : Record} (hp : Record.All (Value.AsksOnly asks) params)
    (hi : Record.All (Value.AsksOnly asks) env.injected) {s : RenderState} (hs : s.capture = none)
    {σ : Schedule} {fuel : Nat} {x : Except Stop (Option Nat)} {u : RenderState}
    (hrun : σ.drive env (.compiled unit name) params fuel s = (x, u)) (hacc : u.Accepted) :
    (∃ deeds r, Render.Stopped r x ∧ u.deeds = s.deeds ++ deeds ∧
      Leads (env.world s.bindings) s.depth (.template (.compiled unit name) none params) deeds
        (.of r)) ∨
    x = .ok none ∧ ∀ b : Budget (env.under σ) asks, b.fits σ.sink →
      fuel < b.left { s with sink := σ.sink, holdsSink := false } := by
  obtain h | ⟨e, -, hbreak⟩ | h := stops hlib hinv.confines hu hc hp hi hs hrun
  · exact .inl h
  · obtain ⟨_, -, href⟩ := hbreak.sink hinv.alive
    exact absurd href hacc.not_refused
  · exact .inr h

/-- A render that comes to its end by some schedule, however often it is resumed on the way, does what
its template leads to. -/
theorem done_leads (hlib : env.library.IsCompiled) (hcon : env.Confines units) {unit : Nat}
    {name : String} (hu : units unit) (hc : env.library.compiled? unit name ≠ none) {params : Record}
    {s u : RenderState} (hs : s.capture = none) {σ : Schedule} {fuel n : Nat}
    (hrun : σ.drive env (.compiled unit name) params fuel s = (.ok (some n), u)) :
    ∃ deeds, u.deeds = s.deeds ++ deeds ∧
      Leads (env.world s.bindings) s.depth (.template (.compiled unit name) none params) deeds
        .done := by
  obtain ⟨deeds, r, hr, hdeeds, hl⟩ | ⟨e, he, -⟩ | ⟨he, -⟩ :=
    stops hlib hcon hu hc params.asksOnly_all env.injected.asksOnly_all hs hrun
  · cases hr
    exact ⟨deeds, hdeeds, hl⟩
  · cases he
  · cases he

theorem agree_deeds (hlib : env.library.IsCompiled) (hcon : env.Confines units) {unit : Nat}
    {name : String} (hu : units unit) (hc : env.library.compiled? unit name ≠ none)
    (params : Record) {s : RenderState} (hs : s.capture = none) :
    ∃ deeds r, ∀ (σ : Schedule) (fuel : Nat) (x : Except Stop (Option Nat)) (u : RenderState),
      σ.drive env (.compiled unit name) params fuel s = (x, u) →
        Render.Stopped r x ∧ u.deeds = s.deeds ++ deeds ∨
        (∃ e, x = .error (.failure e) ∧ u.Broken env.isAlive units e) ∨
        x = .ok none ∧ ¬ σ.NeverWaits := by
  have hstops : ∀ (σ : Schedule) fuel x u, σ.drive env (.compiled unit name) params fuel s = (x, u) →
      (∃ deeds r, Render.Stopped r x ∧ u.deeds = s.deeds ++ deeds ∧
        Leads (env.world s.bindings) s.depth (.template (.compiled unit name) none params) deeds
          (.of r)) ∨
      (∃ e, x = .error (.failure e) ∧ u.Broken env.isAlive units e) ∨ x = .ok none ∧ ¬ σ.NeverWaits := by
    intro σ fuel x u hrun
    refine (stops hlib hcon hu hc params.asksOnly_all env.injected.asksOnly_all hs hrun).imp_right
      (.imp_right (.imp_right fun hleft hσ => ?_))
    exact Nat.not_lt_zero _ (hleft (.idle fun p n _ => hσ.ready p n) hσ.sink)
  -- A world has nothing of the schedule in it, and what is done in it is settled.
  by_cases h : ∃ deeds r, Leads (env.world s.bindings) s.depth
      (.template (.compiled unit name) none params) deeds (.of r)
  · obtain ⟨deeds, r, hl⟩ := h
    refine ⟨deeds, r, fun σ fuel x u hrun => (hstops σ fuel x u hrun).imp_left ?_⟩
    rintro ⟨deeds', r', hr, hdeeds, hl'⟩
    obtain ⟨rfl, he⟩ := hl.deterministic hl'
    exact ⟨End.of_injective he ▸ hr, hdeeds⟩
  · refine ⟨[], .ok (), fun σ fuel x u hrun => (hstops σ fuel x u hrun).imp_left ?_⟩
    rintro ⟨deeds, r, -, -, hl⟩
    exact absurd ⟨deeds, r, hl⟩ h

/-- A render of compiled templates has one end, and one sequence of chunks that it writes on the way:
every schedule whose sink refuses nothing brings it there if the render is resumed until it stops, and
one by which nothing has to wait does so at once. -/
theorem agree (hlib : env.library.IsCompiled) (hinv : env.Involves units) {unit : Nat}
    {name : String} (hu : units unit) (hc : env.library.compiled? unit name ≠ none)
    (params : Record) {s : RenderState} (hs : s.capture = none) :
    ∃ chunks r, ∀ (σ : Schedule) (fuel : Nat) (x : Except Stop (Option Nat)) (u : RenderState),
      σ.drive env (.compiled unit name) params fuel s = (x, u) → u.Accepted →
        Render.Stopped r x ∧ u.chunks = s.chunks ++ chunks ∨ x = .ok none ∧ ¬ σ.NeverWaits := by
  obtain ⟨deeds, r, h⟩ := agree_deeds hlib hinv.confines hu hc params hs
  refine ⟨Deed.texts deeds, r, fun σ fuel x u hrun hacc => ?_⟩
  obtain ⟨hr, hdeeds⟩ | ⟨e, -, hbreak⟩ | hwaits := h σ fuel x u hrun
  · exact .inl ⟨hr, RenderState.chunks_of_deeds hdeeds⟩
  · obtain ⟨_, -, href⟩ := hbreak.sink hinv.alive
    exact absurd href hacc.not_refused
  · exact .inr hwaits

/-- A letter that waits for its sink and for the name of whom it is to writes what one does that waits
for nothing. -/
theorem agree_letter :
    let env := Env.plain .letter 1
    let letter : TemplateRef := .compiled 0 "letter"
    let params : Record := [("name", .lazy 0 (.str "Ada"))]
    let s := RenderState.initial (.buffer "")
    let fast : Schedule := ⟨fun _ _ => true, .buffer ""⟩
    let slow : Schedule := ⟨fun _ asked => 0 < asked, .throttled (.of [0])⟩
    env.library.IsCompiled ∧ env.Involves (fun _ => True) ∧ (fast.drive env letter params 0 s).2.Accepted ∧
      (slow.drive env letter params 2 s).1.toOption.join = some 2 ∧
      (slow.drive env letter params 2 s).2.chunks = (fast.drive env letter params 0 s).2.chunks := by
  intro env letter params s fast slow
  have hletter : env.library.compiled? 0 "letter" ≠ none := fun h => by cases h
  obtain ⟨chunks, r, h⟩ :=
    agree Library.letter_isCompiled (.plain _ _) trivial hletter params (s := s) rfl
  have hfast : (fast.drive env letter params 0 s).2.Accepted := by decide +kernel
  have hslow : (slow.drive env letter params 2 s).2.Accepted := by decide +kernel
  have htwice : (slow.drive env letter params 2 s).1.toOption.join = some 2 := by decide +kernel
  refine ⟨Library.letter_isCompiled, .plain _ _, hfast, htwice, ?_⟩
  obtain ⟨-, hf⟩ | ⟨-, hwaits⟩ := h fast 0 _ _ (Prod.eta _).symm hfast
  · obtain ⟨-, hs⟩ | ⟨hnone, -⟩ := h slow 2 _ _ (Prod.eta _).symm hslow
    · rw [hs, hf]
    · rw [hnone] at htwice
      cases htwice
  · exact absurd ⟨fun _ _ => rfl, trivial⟩ hwaits

end Schedule

end ResumableTemplates
