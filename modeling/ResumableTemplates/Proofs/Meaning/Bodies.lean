import ResumableTemplates.Proofs.Meaning.Loops

/-! Whatever the compiler emits does what it means, by induction on the judgment of what it emits. -/
namespace ResumableTemplates

open CompileState

section Bodies

variable {S : Sources} {run : TemplateRef → Record → Written Unit} {w : World} {d unit : Nat}
  {t : CompiledTemplate} {f g : Fragment} {σ τ υ χ : CompileState} {ops xs ys zs : List Op}
  {out : Output}

namespace Fragment.Means

theorem congr (hg : g.Means S run w d unit t σ ops τ)
    (hwrites : ∀ out, f.WritesTo out → g.WritesTo out) (hfinds : ∀ u a, g.Finds u a)
    (hdelivers : ∀ ρ b, f.Delivers S run unit w t.name ρ b)
    (hi : ∀ u ρ, f.interpret S run unit t.name u ρ = g.interpret S run unit t.name u ρ) :
    f.Means S run w d unit t σ ops τ := by
  intro out u ρ a h
  rw [hi]
  exact (hg out u ρ a { h with writes := hwrites out h.writes, finds := hfinds u a }).mono
    (Nat.le_refl _) fun ρ' b _ hb => ⟨hb.1, hdelivers ρ b⟩

theorem tag {name : String} {ns : List Node} {selfClosing : Bool}
    (h₁ : (Fragment.text out ("<" ++ name)).Means S run w d unit t σ xs υ)
    (e₁ : Emits (.text out ("<" ++ name)) σ xs υ)
    (h₂ : (Fragment.children out ns).Means S run w d unit t υ ys χ)
    (e₂ : Emits (.children out ns) υ ys χ)
    (h₃ : (Fragment.text out (if selfClosing then "/>" else ">")).Means S run w d unit t χ zs τ)
    (e₃ : Emits (.text out (if selfClosing then "/>" else ">")) χ zs τ) :
    (Fragment.node out (.tag name ns selfClosing)).Means S run w d unit t σ (xs ++ ys ++ zs) τ := by
  intro o u ρ a h
  obtain rfl : out = o := h.writes
  rw [interpret_tag]
  exact (sequence h₁ e₁ h₂ e₂ h₃ e₃ ⟨rfl, rfl, rfl⟩ (fun _ => ⟨trivial, trivial, trivial⟩) h).mono
    (Nat.le_refl _) fun _ _ _ hb => ⟨hb, trivial⟩

theorem cons {pending : String} {n : Node} {ns : List Node}
    (h₁ : (Fragment.text out pending).Means S run w d unit t σ xs υ)
    (e₁ : Emits (.text out pending) σ xs υ)
    (h₂ : (Fragment.node out n).Means S run w d unit t υ ys χ) (e₂ : Emits (.node out n) υ ys χ)
    (h₃ : (Fragment.block out "" ns).Means S run w d unit t χ zs τ)
    (e₃ : Emits (.block out "" ns) χ zs τ) :
    (Fragment.block out pending (n :: ns)).Means S run w d unit t σ (xs ++ ys ++ zs) τ := by
  intro o u ρ a h
  obtain rfl : out = o := h.writes
  rw [interpret_cons]
  exact (sequence h₁ e₁ h₂ e₂ h₃ e₃ ⟨rfl, rfl, rfl⟩ (fun _ => ⟨trivial, trivial, trivial⟩) h).mono
    (Nat.le_refl _) fun _ _ _ hb => ⟨hb, trivial⟩

theorem child {n : Node} {ns : List Node} (h₁ : (Fragment.node out n).Means S run w d unit t σ xs υ)
    (e₁ : Emits (.node out n) σ xs υ) (h₂ : (Fragment.children out ns).Means S run w d unit t υ ys τ)
    (e₂ : Emits (.children out ns) υ ys τ) :
    (Fragment.children out (n :: ns)).Means S run w d unit t σ (xs ++ ys) τ := by
  intro o u ρ a h
  obtain rfl : out = o := h.writes
  have hkey : ∀ e, n ≠ .key e := fun e he => by
    subst he
    cases e₁
  rw [interpret_child hkey]
  refine h₁.andThen e₁ (h.first e₂.grows rfl trivial) (Nat.le_refl _) fun ρ' b _ hab hb hopen _ => ?_
  exact h₂ out u ρ' b (e₁.starts h rfl hab hb hopen trivial)

end Fragment.Means

open Fragment in
theorem Emits.means (hw : S.Fits w) (hrun : Serves w d run) (h : Emits f σ ops τ) :
    f.Means S run w d unit t σ ops τ := by
  -- What is emitted for a block, a branch or a case is that of its parts, with the same meaning.
  induction h with
  | noText => exact fun _ _ _ _ h => .pure ⟨h.stands, trivial⟩
  | absent => exact fun _ _ _ _ h => .pure ⟨h.stands, trivial⟩
  | noChildren => exact fun _ _ _ _ h => .pure ⟨h.stands, trivial⟩
  | noArgs => exact .noArgs
  | text _ => exact .text _
  | raw _ ih | branch _ ih | otherwise _ ih | noCase _ ih | done _ ih =>
    exact ih.congr (fun _ h => h) (fun _ _ => trivial) (fun _ _ => trivial) fun _ _ => rfl
  | switch _ ih =>
    exact ih.congr (fun _ h => h) (fun _ _ => trivial) (fun _ _ => trivial)
      fun _ _ => interpret_switch ..
  | invoke _ ih =>
    exact ih.congr (fun _ h => h) (fun _ _ => trivial) (fun _ _ => trivial)
      fun _ _ => interpret_invoke ..
  | join _ ih =>
    exact ih.congr (fun _ h => h) (fun _ _ => trivial) (fun _ _ => trivial)
      fun _ _ => interpret_join ..
  | present _ ih =>
    exact ih.congr (fun _ h => h) (fun _ _ => trivial) (fun _ _ => trivial)
      fun _ _ => interpret_present ..
  | print hc => exact .print hw hc
  | each hc hloop hbe hstack ih => exact .each hloop ih hbe hw hc hstack
  | eachElse hc hloop hbe hstack hoe ih ih' => exact .eachElse hloop ih hbe hw hc hstack ih' hoe
  | bind hc hslot => exact .bind hw hc hslot
  | capture hbuffer hbe hdest ih => exact .capture hbuffer ih hbe hdest
  | tag hstart hbody hstop ih ih' ih'' => exact .tag ih hstart ih' hbody ih'' hstop
  | cons hbefore hn hrest ih ih' ih'' => exact .cons ih hbefore ih' hn ih'' hrest
  | test hc hbe hre ih ih' => exact .test hw ih hbe hc ih' hre
  | selection hc hsubject hcse ih => exact .selection hw hc hsubject ih hcse
  | «case» hc hbe hre ih ih' => exact .case hw ih hbe hc ih' hre
  | call hase hbase hcallee ih => exact .call hw hrun ih hase hbase hcallee
  | value hc _ ih => exact .value hw hc ih
  | content hbuffer hbe hase ih ih' => exact .content hbuffer ih hbe ih' hase
  | keyed hc _ ih => exact .keyed hc ih
  | child hn hns ih ih' => exact .child ih hn ih' hns
  | scope h hstack ih => exact .scope ih h hstack

end Bodies

end ResumableTemplates
