import ResumableTemplates.Proofs.Render.Leads

/-! What slots hold. A typing says of each slot what it surely holds at a position; an op is safe at
a typing if it finds there all that it reads, and its flows say what its slots hold after it. -/
namespace ResumableTemplates

inductive SlotType
  | value
  | plain
  | list
  | cursor
  | buffer
deriving DecidableEq

abbrev Typing := Nat → Option SlotType

def Typing.set (Γ : Typing) (slot : Nat) (type : Option SlotType) : Typing :=
  fun n => if n = slot then type else Γ n

def Typing.Le (Γ Δ : Typing) : Prop := ∀ n type, Γ n = some type → Δ n = some type

theorem Typing.Le.refl (Γ : Typing) : Γ.Le Γ := fun _ _ h => h

theorem Typing.Le.trans {Γ Δ Θ : Typing} (h : Γ.Le Δ) (h' : Δ.Le Θ) : Γ.Le Θ :=
  fun n type hn => h' n type (h n type hn)

@[simp] theorem Typing.set_same (Γ : Typing) (slot : Nat) (type : Option SlotType) :
    Γ.set slot type slot = type := if_pos rfl

theorem Typing.set_other (Γ : Typing) {slot n : Nat} (type : Option SlotType) (h : n ≠ slot) :
    Γ.set slot type n = Γ n := if_neg h

theorem Typing.le_set {Γ : Typing} {slot : Nat} (type : Option SlotType) (h : Γ slot = none) :
    Γ.Le (Γ.set slot type) := by
  intro n ty hn
  rwa [Γ.set_other type]
  rintro rfl
  rw [h] at hn
  cases hn

/-- Holds if a code finds a value in every slot that it reads, has plain constants, and describes
only elements that `known` holds of. -/
def Code.Reads (known : String → UInt64 → Prop) (Γ : Typing) (c : Code) : Prop :=
  ∀ d ∈ c.parts, match d with
    | .const v => v.IsPlain
    | .slot n => Γ n = some .value
    | .element id _ (some (_, table)) => known table id
    | _ => True

theorem Code.Reads.bears {known : String → UInt64 → Prop} {Γ : Typing} {c : Code}
    (h : c.Reads known Γ) (asks : Nat → Prop) :
    c.Bears (fun _ => True) (Value.AsksOnly asks) := by
  intro d hd
  have := h d hd
  cases d with
  | const v => exact Value.IsPlain.asksOnly this
  | _ => trivial

def Output.Safe (Γ : Typing) : Output → Prop
  | .sink => True
  | .buffer slot => Γ slot = some .buffer

def ArgSource.Safe (known : String → UInt64 → Prop) (Γ : Typing) : ArgSource → Prop
  | .code c => c.Reads known Γ
  | .slot n => Γ n = some .value

namespace Op

/-- Holds if an op finds what it reads and has room for what it sets. -/
def Safe (known : String → UInt64 → Prop) (size : Nat) (Γ : Typing) : Op → Prop
  | text _ out _ => out.Safe Γ
  | print _ out c => out.Safe Γ ∧ c.Reads known Γ
  | store _ slot c _ => slot < size ∧ c.Reads known Γ
  | branchUnless _ c _ => c.Reads known Γ
  | branchUnlessMatch _ subject cs _ => Γ subject = some .plain ∧ ∀ c ∈ cs, c.Reads known Γ
  | jump _ => True
  | forInit _ c list cursor _ => list < size ∧ cursor < size ∧ list ≠ cursor ∧ c.Reads known Γ
  | forNext list cursor item index _ =>
    Γ list = some .list ∧ Γ cursor = some .cursor ∧ list ≠ cursor ∧
      ∀ n ∈ item :: index.toList, n < size ∧ n ≠ list ∧ n ≠ cursor
  | beginCapture buffer => buffer < size
  | endCapture buffer dest _ => Γ buffer = some .buffer ∧ dest < size
  | call _ out callee base args =>
    out.Safe Γ ∧ (∀ c ∈ base.codes, c.Reads known Γ) ∧ (∀ arg ∈ args, arg.2.Safe known Γ) ∧
      ∀ c ∈ callee.codes, c.Reads known Γ

theorem Safe.reads {known : String → UInt64 → Prop} {size : Nat} {Γ : Typing} {op : Op}
    (h : op.Safe known size Γ) : ∀ c ∈ op.codes, c.Reads known Γ := by
  intro c hc
  cases op with
  | print point out d => exact List.mem_singleton.1 hc ▸ h.2
  | store point slot d forces => exact List.mem_singleton.1 hc ▸ h.2
  | branchUnless point d target => exact List.mem_singleton.1 hc ▸ h
  | forInit point d list cursor onEmpty => exact List.mem_singleton.1 hc ▸ h.2.2.2
  | branchUnlessMatch point subject cs target => exact h.2 c hc
  | call point out callee base args =>
    simp only [codes, List.mem_append] at hc
    obtain (hc | hc) | hc := hc
    · exact h.2.1 c hc
    · obtain ⟨⟨name, arg⟩, harg, hc⟩ := List.mem_flatMap.1 hc
      have := h.2.2.1 _ harg
      cases arg with
      | code d => exact List.mem_singleton.1 hc ▸ this
      | slot n => cases hc
    · exact h.2.2.2 c hc
  | _ => cases hc

def flows (p : Nat) (Γ : Typing) : Op → List (Nat × Typing)
  | text .. | print .. | call .. => [(p + 1, Γ)]
  | store _ slot _ forces => [(p + 1, Γ.set slot (some (if forces then .plain else .value)))]
  | branchUnless _ _ target | branchUnlessMatch _ _ _ target => [(p + 1, Γ), (target, Γ)]
  | jump target => [(target, Γ)]
  | forInit _ _ list cursor onEmpty =>
    let Δ := (Γ.set list (some .list)).set cursor (some .cursor)
    (p + 1, Δ) :: onEmpty.toList.map (·, Δ)
  | forNext _ _ item index exit =>
    [(exit, Γ), (p + 1, index.toList.foldl (·.set · (some .value)) (Γ.set item (some .value)))]
  | beginCapture buffer => [(p + 1, Γ.set buffer (some .buffer))]
  | endCapture buffer dest _ => [(p + 1, (Γ.set buffer none).set dest (some .value))]

def writes : Op → List Nat
  | text _ (.buffer slot) _ | print _ (.buffer slot) _ | call _ (.buffer slot) .. => [slot]
  | store _ slot .. => [slot]
  | forInit _ _ list cursor _ => [list, cursor]
  | forNext _ cursor item index _ => cursor :: item :: index.toList
  | beginCapture buffer => [buffer]
  | endCapture buffer dest _ => [buffer, dest]
  | text .. | print .. | call .. | branchUnless .. | branchUnlessMatch .. | jump _ => []

end Op

/-- Holds of two slots that hold the same as far as a type tells. -/
inductive SlotType.Pairs (defers : Prop) : SlotType → Local → Local → Prop
  | value : v.Alike defers u → Pairs defers .value (.value v) (.value u)
  | plain : Pairs defers .plain (.value v) (.value v)
  | list : Pairs defers .list (.value (.list vs)) (.value (.list vs))
  | cursor : Pairs defers .cursor (.cursor n) (.cursor n)
  | buffer : Pairs defers .buffer (.buffer s) (.buffer s)

theorem SlotType.Pairs.relax {defers : Prop} {type : SlotType} {l k : Local}
    (h : type.Pairs False l k) : type.Pairs defers l k := by
  cases h with
  | value h => exact .value h.relax
  | plain => exact .plain
  | list => exact .list
  | cursor => exact .cursor
  | buffer => exact .buffer

structure World.Alike (defers : Prop) (w x : World) : Prop where
  library : w.library = x.library
  lookup : w.lookup = x.lookup
  maxDepth : w.maxDepth = x.maxDepth
  template : w.template = x.template
  element : w.element = x.element
  isLookedUp : w.isLookedUp = x.isLookedUp
  injected : Record.Alike defers w.injected x.injected

theorem World.Alike.refl {defers : Prop} (w : World) : w.Alike defers w :=
  ⟨rfl, rfl, rfl, rfl, rfl, rfl, .refl _⟩

structure Activation.Alike (defers : Prop) (Γ : Typing) (a b : Activation) : Prop where
  unit : a.unit = b.unit
  template : a.template = b.template
  params : Record.Alike defers a.params b.params
  waiting : a.waiting = b.waiting
  size : a.locals.size = a.template.procedure.layout.size
  size' : b.locals.size = a.template.procedure.layout.size
  slots : ∀ n type, Γ n = some type → ∃ l k, a.locals[n]? = some l ∧ b.locals[n]? = some k ∧
    type.Pairs defers l k

/-- Holds if the errors that a render meets are allowed, those of elements as far as `known` holds of
them in their unit. -/
structure World.Tolerates (w : World) (Q : RenderError → Prop)
    (known : Nat → String → UInt64 → Prop) : Prop where
  other : ∀ e, e.isFatal = false → Q e
  sites : ∀ unit template i name e, w.template unit template i name = .error e → Q e
  elements : ∀ unit template i table id e, known unit table id →
    w.element unit template i table id = .error e → Q e

namespace Activation.Alike

variable {defers : Prop} {Γ Δ : Typing} {a b : Activation}

theorem weaken (h : a.Alike defers Γ b) (hle : Δ.Le Γ) : a.Alike defers Δ b :=
  { h with slots := fun n type hn => h.slots n type (hle n type hn) }

theorem set {Q : RenderError → Prop} (h : a.Alike defers Γ b) {slot : Nat}
    (hs : slot < a.template.procedure.layout.size) (type : Option SlotType) {l k : Local}
    (hp : ∀ ty, type = some ty → ty.Pairs defers l k) :
    Paired Q (fun a' b' => a'.Alike defers (Γ.set slot type) b' ∧ a'.template = a.template ∧
        a'.params = a.params)
      (a.set slot l) (b.set slot k) := by
  have ha : slot < a.locals.size := h.size ▸ hs
  have hb : slot < b.locals.size := h.size' ▸ hs
  rw [Activation.set, Activation.set, dif_pos ha, dif_pos hb]
  refine ⟨⟨h.unit, h.template, h.params, h.waiting, ?_, ?_, ?_⟩, rfl, rfl⟩
  · simpa using h.size
  · simpa using h.size'
  · intro n ty hn
    by_cases hns : n = slot
    · subst hns
      rw [Γ.set_same] at hn
      exact ⟨l, k, by simp [ha], by simp [hb], hp ty hn⟩
    · rw [Γ.set_other _ hns] at hn
      obtain ⟨l, k, hl, hk, hlk⟩ := h.slots n ty hn
      refine ⟨l, k, ?_, ?_, hlk⟩
      · simp [Ne.symm hns, hl]
      · simp [Ne.symm hns, hk]

theorem value_paired {Q : RenderError → Prop} (h : a.Alike defers Γ b) {n : Nat}
    (hn : Γ n = some .value) :
    Paired Q (Value.Alike defers) (a.value n) (b.value n) := by
  obtain ⟨l, k, hl, hk, hp⟩ := h.slots n _ hn
  cases hp with
  | value hv =>
    simp only [Activation.value, hl, hk, Option.bind_some, Local.value?]
    exact hv

theorem variable_paired {Q : RenderError → Prop} (h : a.Alike defers Γ b) {n : Nat}
    (hn : Γ n = some .value) :
    Paired Q (Value.Alike defers) (a.variable n) (b.variable n) := by
  obtain ⟨l, k, hl, hk, hp⟩ := h.slots n _ hn
  cases hp with
  | value hv =>
    simp only [Activation.variable, hl, hk, Option.bind_some, Local.value?]
    exact hv

theorem plain (h : a.Alike defers Γ b) {n : Nat} (hn : Γ n = some .plain) :
    ∃ v, a.value n = .ok v ∧ b.value n = .ok v := by
  obtain ⟨l, k, hl, hk, hp⟩ := h.slots n _ hn
  cases hp with
  | @plain v => exact ⟨v, Activation.value_of hl, Activation.value_of hk⟩

theorem list (h : a.Alike defers Γ b) {n : Nat} (hn : Γ n = some .list) :
    ∃ vs, a.value n = .ok (.list vs) ∧ b.value n = .ok (.list vs) := by
  obtain ⟨l, k, hl, hk, hp⟩ := h.slots n _ hn
  cases hp with
  | @list vs => exact ⟨vs, Activation.value_of hl, Activation.value_of hk⟩

theorem cursor (h : a.Alike defers Γ b) {n : Nat} (hn : Γ n = some .cursor) :
    ∃ m, a.cursor n = .ok m ∧ b.cursor n = .ok m := by
  obtain ⟨l, k, hl, hk, hp⟩ := h.slots n _ hn
  cases hp with
  | @cursor m => exact ⟨m, by simp only [Activation.cursor, hl], by simp only [Activation.cursor, hk]⟩

theorem buffer (h : a.Alike defers Γ b) {n : Nat} (hn : Γ n = some .buffer) :
    ∃ s, a.locals[n]? = some (.buffer s) ∧ b.locals[n]? = some (.buffer s) := by
  obtain ⟨l, k, hl, hk, hp⟩ := h.slots n _ hn
  cases hp with
  | @buffer s => exact ⟨s, hl, hk⟩

theorem lt_size (h : a.Alike defers Γ b) {n : Nat} {type : SlotType} (hn : Γ n = some type) :
    n < a.template.procedure.layout.size := by
  obtain ⟨l, k, hl, -, -⟩ := h.slots n _ hn
  rw [← h.size]
  exact (Array.getElem?_eq_some_iff.1 hl).1

end Activation.Alike

end ResumableTemplates
