import ResumableTemplates.Proofs.Render.Fallback
import ResumableTemplates.Proofs.Render.Schedules

/-! Callees are looked for once. A call that is put off before it has looked for its callee has left
nothing to see, and one that is put off by its callee goes on with the callee it has. Main statement:
whatever the schedule, the calls of a render do the same to find their callees. -/
namespace ResumableTemplates

def RenderError.IsOutside (e : RenderError) : Prop := (∃ cause, e = .sink cause) ∨ e.IsDrop

theorem RenderState.Broken.isOutside {isAlive : Nat → Bool} {units : Nat → Prop} {u : RenderState}
    {e : RenderError} (h : u.Broken isAlive units e) : e.IsOutside := by
  cases h with
  | refused h => exact .inl ⟨_, rfl⟩
  | dropped _ _ he => exact .inr he

namespace Schedule

/-- A render of compiled templates has one sequence of what its calls do to find their callees. However
often the arguments, the variants and the callees are put off, every schedule goes through that sequence
once if the render is resumed until it stops, and one by which nothing has to wait does so at once. It is
only a sink that fails and a unit that is gone that can end a render before. -/
theorem searches_once {env : Env} (hlib : env.library.IsCompiled) {unit : Nat} {name : String}
    (hc : env.library.compiled? unit name ≠ none) (params : Record) {s : RenderState}
    (hs : s.capture = none) :
    ∃ searches r, ∀ (σ : Schedule) (fuel : Nat) (x : Except Stop (Option Nat)) (u : RenderState),
      σ.drive env (.compiled unit name) params fuel s = (x, u) →
      (∀ e, x = .error (.failure e) → ¬ e.IsOutside) →
        Render.Stopped r x ∧ u.searches = s.searches ++ searches ∨ x = .ok none ∧ ¬ σ.NeverWaits := by
  obtain ⟨deeds, r, h⟩ := agree_deeds hlib env.confines_true trivial hc params hs
  refine ⟨Deed.searches deeds, r, fun σ fuel x u hrun hown => ?_⟩
  obtain ⟨hr, hdeeds⟩ | ⟨e, he, hbreak⟩ | hwaits := h σ fuel x u hrun
  · exact .inl ⟨hr, RenderState.searches_of_deeds hdeeds⟩
  · exact absurd hbreak.isOutside (hown e he)
  · exact .inr hwaits

end Schedule

def TemplateFile.round : TemplateFile :=
  ⟨"", [], [{ Template.empty "round" with
    params := [.required "guests", .required "style"]
    body := [.each "guest" none (.var (.param "guests"))
      [.call (.template "greeting") .none
          [.value "to" (.binary .add (.var (.bound "guest")) (.literal (.str "!")))],
        .call (.delegate "bow" (some (.var (.param "style"))) true) .none []]
      none] }]⟩

def Library.round : Library :=
  ⟨((CompiledUnit.compile {} [.round] .empty).toOption.toList ++
    [CompiledUnit.of [.greeting] [.greeting]]).toArray, #[], [1, 0]⟩

theorem Library.round_isCompiled : round.IsCompiled := by
  intro u hu
  obtain hu | hu := List.mem_append.1 (List.mem_toArray.1 hu)
  · refine ⟨{}, [.round], .empty, ?_⟩
    generalize CompiledUnit.compile {} [.round] .empty = c at hu ⊢
    cases c with
    | error e => cases hu
    | ok v => rw [List.mem_singleton.1 hu]
  · obtain rfl := List.mem_singleton.1 hu
    exact ⟨{}, [.greeting], .empty, CompiledUnit.greeting_compiled⟩

/-- A round for two guests is put off by the name of each, by the style of the bows and twice by its sink,
and asks for each greeting and each bow once. -/
theorem Schedule.searches_once_round :
    let env : Env := { Env.plain .round 2 with lookup := .registry .round }
    let round : TemplateRef := .compiled 0 "round"
    let params : Record := [("guests", .list [.lazy 0 (.str "Ada"), .lazy 1 (.str "Bob")]),
      ("style", .lazy 2 (.str "low"))]
    let s := RenderState.initial (.buffer "")
    let fast : Schedule := ⟨fun _ _ => true, .buffer ""⟩
    let slow : Schedule := ⟨fun _ asked => 0 < asked, .throttled (.of [0, 1])⟩
    env.library.IsCompiled ∧ (fast.drive env round params 0 s).1.toOption.join = some 0 ∧
      (slow.drive env round params 5 s).1.toOption.join = some 5 ∧
      (slow.drive env round params 5 s).2.searches = (fast.drive env round params 0 s).2.searches ∧
      ((fast.drive env round params 0 s).2.searches.filterMap fun
        | .lookup _ name => some name
        | .select _ _ _ variant => some variant
        | _ => none) = ["greeting", "low", "greeting", "low"] := by
  intro env round params s fast slow
  have hlib : env.library.IsCompiled := Library.round_isCompiled
  have hround : (env.library.compiled? 0 "round").isSome = true := by decide +kernel
  have hfast : (fast.drive env round params 0 s).1.toOption.join = some 0 := by decide +kernel
  have hslow : (slow.drive env round params 5 s).1.toOption.join = some 5 := by decide +kernel
  have hnames : ((fast.drive env round params 0 s).2.searches.filterMap fun
      | .lookup _ name => some name
      | .select _ _ _ variant => some variant
      | _ => none) = ["greeting", "low", "greeting", "low"] := by decide +kernel
  have hdone : ∀ {x : Except Stop (Option Nat)} {n : Nat}, x.toOption.join = some n →
      (∀ e, x = .error (.failure e) → ¬ e.IsOutside) ∧ x ≠ .ok none := by
    intro x n hx
    exact ⟨fun e he => by (rw [he] at hx; cases hx), fun he => by (rw [he] at hx; cases hx)⟩
  obtain ⟨searches, r, h⟩ := searches_once hlib
    (Option.isSome_iff_ne_none.1 hround) params (s := s) rfl
  obtain ⟨-, hf⟩ := (h fast 0 _ _ (Prod.eta _).symm (hdone hfast).1).resolve_right
    fun hwaits => (hdone hfast).2 hwaits.1
  obtain ⟨-, hs⟩ := (h slow 5 _ _ (Prod.eta _).symm (hdone hslow).1).resolve_right
    fun hwaits => (hdone hslow).2 hwaits.1
  exact ⟨hlib, hfast, hslow, hs.trans hf.symm, hnames⟩

end ResumableTemplates
