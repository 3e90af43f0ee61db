import Mathlib.Logic.Function.Basic
import ResumableTemplates.Proofs.Render.Fallback
import ResumableTemplates.Proofs.Render.Unison

/-! Renders that take turns over the same units. They share what the sites have found, and all else each
has to itself; none of them can tell that it is not alone. -/
namespace ResumableTemplates

def Accord.same (env : Env) (halive : ∀ unit, env.isAlive unit = true) : Accord where
  env := env
  other := env
  reach _ := True
  library := rfl
  lookup := rfl
  maxDepth := rfl
  isReady := rfl
  alive unit _ _ := ⟨halive unit, halive unit⟩
  host _ _ := rfl
  clear _ c _ _ _ op _ := by
    refine ⟨fun code _ d _ => ?_, ?_⟩
    · cases d with
      | slot n =>
        rintro ⟨_, -, -, -, hne⟩
        exact hne rfl
      | injected name => exact rfl
      | _ => trivial
    · rintro n - ⟨_, -, -, -, hne⟩
      exact hne rfl
  live _ _ _ _ _ _ _ _ _ _ _ _ _ := by
    rintro ⟨_, -, -, -, hne⟩
    exact hne rfl
  callee _ _ _ _ _ _ _ _ _ _ _ _ := trivial
  delegate _ _ _ _ _ _ _ _ _ _ _ _ _ _ := trivial

theorem Accord.run (A : Accord) {c : Call} (hr : A.reach c.template) :
    A.Renders Eq (Call.run { c with env := A.env }) (Call.run { c with env := A.other }) := by
  obtain ⟨env, template, params, source⟩ := c
  cases source with
  | none => exact start hr params
  | some o => exact resume hr params o

/-- Holds of states that are the same but for what the sites of some units have found, which is no more
than they find. -/
structure RenderState.Level (units : Array CompiledUnit) (s t : RenderState) : Prop where
  same : t = { s with bindings := t.bindings }
  settles : ∀ lib : Library, lib.units = units → lib.Settles s.bindings
  settles' : ∀ lib : Library, lib.units = units → lib.Settles t.bindings

structure Call.Over (units : Array CompiledUnit) (c : Call) : Prop where
  units : c.env.library.units = units
  alive : ∀ unit, c.env.isAlive unit = true

namespace Call

variable {units : Array CompiledUnit} {c : Call}

theorem run_level (hc : c.Over units) {s t : RenderState} (h : s.Level units t) :
    (c.run s).1 = (c.run t).1 ∧ (c.run s).2.Level units (c.run t).2 := by
  have hst : (Accord.same c.env hc.alive).States s t :=
    .of_same h.same (h.settles _ hc.units) (h.settles' _ hc.units) fun _ _ _ _ => trivial
  obtain ⟨hr, hu⟩ | ⟨hne, -⟩ := (Accord.same c.env hc.alive).run (c := c) trivial s t hst
  · exact ⟨hr.eq, hu.same, fun lib hlib => hu.settles.of_units (hlib.trans hc.units.symm),
      fun lib hlib => hu.settles'.of_units (hlib.trans hc.units.symm)⟩
  · exact absurd rfl hne

def runAll : List Call → RenderState → List (Except Stop Outcome) × RenderState
  | [], s => ([], s)
  | c :: cs, s =>
    let (r, t) := c.run s
    let (rs, u) := runAll cs t
    (r :: rs, u)

end Call

/-- Renders by number: what sites have found they share, all else each has to itself. -/
structure Company where
  bindings : Table Site Binding
  own : Nat → RenderState

namespace Company

def state (m : Company) (k : Nat) : RenderState := { m.own k with bindings := m.bindings }

def runAll : List (Nat × Call) → Company → List (Nat × Except Stop Outcome) × Company
  | [], m => ([], m)
  | (k, c) :: calls, m =>
    let (r, t) := c.run (m.state k)
    let (rs, m) := runAll calls ⟨t.bindings, Function.update m.own k t⟩
    ((k, r) :: rs, m)

def ofOne (k : Nat) (xs : List (Nat × α)) : List α := (xs.filter (·.1 = k)).map (·.2)

variable {units : Array CompiledUnit} {calls : List (Nat × Call)}

theorem ofOne_cons (k j : Nat) (x : α) (xs : List (Nat × α)) :
    ofOne k ((j, x) :: xs) = if j = k then x :: ofOne k xs else ofOne k xs := by
  unfold ofOne
  by_cases h : j = k <;> simp [h]

def after (m : Company) (k : Nat) (c : Call) : Company :=
  ⟨(c.run (m.state k)).2.bindings, Function.update m.own k (c.run (m.state k)).2⟩

theorem after_state (m : Company) (k : Nat) (c : Call) : (m.after k c).state k = (c.run (m.state k)).2 := by
  simp [state, after]

theorem after_state_of_ne (m : Company) {j k : Nat} (h : j ≠ k) (c : Call) :
    (m.after j c).state k = { m.state k with bindings := (c.run (m.state j)).2.bindings } := by
  simp [state, after, Function.update_of_ne h.symm]

theorem runAll_level (hcalls : ∀ call ∈ calls, call.2.Over units) {m : Company} {k : Nat}
    {s : RenderState} (h : (m.state k).Level units s) :
    ofOne k (runAll calls m).1 = (Call.runAll (ofOne k calls) s).1 ∧
      ((runAll calls m).2.state k).Level units (Call.runAll (ofOne k calls) s).2 := by
  induction calls generalizing m s with
  | nil => exact ⟨rfl, h⟩
  | cons call calls ih =>
    obtain ⟨j, c⟩ := call
    have hc := hcalls (j, c) List.mem_cons_self
    have ih := @ih (fun d hd => hcalls d (List.mem_cons_of_mem _ hd)) (m.after j c)
    change ofOne k ((j, (c.run (m.state j)).1) :: (runAll calls (m.after j c)).1) = _ ∧
      ((runAll calls (m.after j c)).2.state k).Level units _
    rw [ofOne_cons, ofOne_cons]
    by_cases hj : j = k
    · subst hj
      obtain ⟨hr, hrun⟩ := Call.run_level hc h
      obtain ⟨hrest, hstate⟩ := ih (s := (c.run s).2) (by rw [after_state]; exact hrun)
      rw [if_pos rfl, if_pos rfl, Call.runAll, hr, hrest]
      exact ⟨rfl, hstate⟩
    · -- The other render leaves sites settled, as a run beside itself shows.
      have hself : (m.state j).Level units (m.state j) := ⟨rfl, h.settles, h.settles⟩
      have hafter := (Call.run_level hc hself).2.settles
      rw [if_neg hj, if_neg hj]
      refine ih ?_
      rw [after_state_of_ne m hj]
      exact ⟨h.same, hafter, h.settles'⟩

/-- Each render of a company returns, writes and asks what it would alone over fresh units, in whatever
order the calls of all of them are made, whatever the others look up, and wherever they fail. -/
theorem isolated (hcalls : ∀ call ∈ calls, call.2.Over units) (own : Nat → RenderState) (k : Nat) :
    let together := runAll calls ⟨.empty, own⟩
    let alone := Call.runAll (ofOne k calls) { own k with bindings := .empty }
    ofOne k together.1 = alone.1 ∧
      { together.2.own k with bindings := .empty } = { alone.2 with bindings := .empty } := by
  intro together alone
  have hstart : (state ⟨.empty, own⟩ k).Level units { own k with bindings := .empty } :=
    ⟨rfl, fun lib _ => lib.settles_empty, fun lib _ => lib.settles_empty⟩
  obtain ⟨hresults, hstate⟩ := runAll_level hcalls hstart
  refine ⟨hresults, ?_⟩
  rw [show alone.2 = _ from hstate.same]
  rfl

/-- A page that pauses in its greeting writes the same as alone, though the page has been rendered by
another that cannot find the greeting. -/
theorem isolated_page :
    let page (lookup : Lookup) (source : Option Outcome) : Call :=
      ⟨{ Env.plain .apart 2 with lookup }, .compiled 0 "page", [], source⟩
    let paused : Outcome := .suspended ⟨"page", .sinkNotReady, 2, 0⟩
    let calls := [(1, page .none none), (0, page (.registry .apart) none), (1, page .none none),
      (0, page (.registry .apart) (some paused))]
    let own (k : Nat) := RenderState.initial (if k = 0 then .throttled (.of [0]) else .buffer "")
    let together := runAll calls ⟨.empty, own⟩
    let alone := Call.runAll (ofOne 0 calls) { own 0 with bindings := .empty }
    (∀ call ∈ calls, call.2.Over Library.apart.units) ∧ (together.2.own 0).chunks = ["dear ", "hi"] ∧
      (together.2.own 1).chunks = ["dear ", "dear "] ∧ ofOne 0 together.1 = alone.1 ∧
      { together.2.own 0 with bindings := .empty } = { alone.2 with bindings := .empty } := by
  intro page paused calls own together alone
  have hcalls : ∀ call ∈ calls, call.2.Over Library.apart.units := by
    intro call hcall
    simp only [calls, List.mem_cons, List.not_mem_nil, or_false] at hcall
    obtain rfl | rfl | rfl | rfl := hcall <;> exact ⟨rfl, fun _ => rfl⟩
  have hwritten : (together.2.own 0).chunks = ["dear ", "hi"] := by decide +kernel
  have hother : (together.2.own 1).chunks = ["dear ", "dear "] := by decide +kernel
  have hisolated := isolated hcalls own 0
  -- What the calls are does not matter any more, and must not be evaluated once more.
  clear_value calls own
  exact ⟨hcalls, hwritten, hother, hisolated⟩

end Company

end ResumableTemplates
