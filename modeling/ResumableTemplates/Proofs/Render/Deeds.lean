import ResumableTemplates.Render.Run

/-! What a render does that is for others to see: it writes texts, and it finds the callees of its
calls. What else it does depends on how often it is put off. -/
namespace ResumableTemplates

/-- Holds of what a call does to find its callee: its site asks for a template, and the lookup is asked
for a template or for an implementation of a delegate. -/
def Event.findsCallee : Event → Bool
  | .resolve _ .call _ | .lookup .call _ | .select .. => true
  | _ => false

/-- What a render does to be seen. -/
inductive Deed
  | write (text : String)
  | seek (e : Event)

namespace Deed

def text? : Deed → Option String
  | write text => some text
  | seek _ => none

def sought? : Deed → Option Event
  | write _ => none
  | seek e => some e

def isSeek (deed : Deed) : Bool := deed.sought?.isSome

def texts (deeds : List Deed) : List String := deeds.filterMap text?

def searches (deeds : List Deed) : List Event := deeds.filterMap sought?

/-- What is seen of deeds by somebody who does not get the texts if these are captured. -/
def seen (isCaptured : Bool) (deeds : List Deed) : List Deed :=
  if isCaptured then deeds.filter isSeek else deeds

variable (xs ys : List Deed)

@[simp] theorem texts_append : texts (xs ++ ys) = texts xs ++ texts ys := List.filterMap_append

@[simp] theorem searches_append : searches (xs ++ ys) = searches xs ++ searches ys :=
  List.filterMap_append

@[simp] theorem texts_write (ts : List String) : texts (ts.map write) = ts := by
  induction ts with
  | nil => rfl
  | cons t ts ih => exact congrArg (t :: ·) ih

@[simp] theorem texts_seek (es : List Event) : texts (es.map seek) = [] := by
  induction es with
  | nil => rfl
  | cons e es ih => exact ih

@[simp] theorem seen_nil (isCaptured : Bool) : seen isCaptured [] = [] := by
  cases isCaptured <;> rfl

@[simp] theorem seen_append (isCaptured : Bool) :
    seen isCaptured (xs ++ ys) = seen isCaptured xs ++ seen isCaptured ys := by
  cases isCaptured with
  | false => rfl
  | true => exact List.filter_append _ _

@[simp] theorem seen_seek (isCaptured : Bool) (es : List Event) :
    seen isCaptured (es.map seek) = es.map seek := by
  cases isCaptured with
  | false => rfl
  | true =>
    refine List.filter_eq_self.2 fun d hd => ?_
    obtain ⟨e, -, rfl⟩ := List.mem_map.1 hd
    rfl

@[simp] theorem texts_seen : texts (seen true xs) = [] := by
  induction xs with
  | nil => rfl
  | cons d ds ih => cases d <;> exact ih

@[simp] theorem seen_seen (isCaptured : Bool) : seen isCaptured (seen true xs) = seen true xs := by
  cases isCaptured <;> simp [seen]

end Deed

def Event.deed? : Event → Option Deed
  | .append chunk (.ok _) => some (.write chunk)
  | e => if e.findsCallee then some (.seek e) else none

theorem Event.chunk?_eq (e : Event) : e.chunk? = e.deed?.bind Deed.text? := by
  cases e with
  | append chunk answer => cases answer <;> rfl
  | resolve site use name => cases use <;> rfl
  | lookup use name => cases use <;> rfl
  | _ => rfl

theorem Event.search_eq (e : Event) :
    Option.guard Event.findsCallee e = e.deed?.bind Deed.sought? := by
  cases e with
  | append chunk answer => cases answer <;> rfl
  | resolve site use name => cases use <;> rfl
  | lookup use name => cases use <;> rfl
  | _ => rfl

namespace RenderState

def deeds (s : RenderState) : List Deed := (s.events.filterMap Event.deed?).reverse

def searches (s : RenderState) : List Event := (s.events.filter Event.findsCallee).reverse

theorem chunks_of_deeds {s t : RenderState} {deeds : List Deed} (h : t.deeds = s.deeds ++ deeds) :
    t.chunks = s.chunks ++ Deed.texts deeds := by
  have htexts : ∀ s : RenderState, s.chunks = Deed.texts s.deeds := by
    intro s
    rw [chunks, RenderState.deeds, Deed.texts, List.filterMap_reverse, List.filterMap_filterMap]
    congr 2
    funext e
    exact e.chunk?_eq
  rw [htexts t, htexts s, h, Deed.texts_append]

theorem searches_of_deeds {s t : RenderState} {deeds : List Deed} (h : t.deeds = s.deeds ++ deeds) :
    t.searches = s.searches ++ Deed.searches deeds := by
  have hsearches : ∀ s : RenderState, s.searches = Deed.searches s.deeds := by
    intro s
    rw [searches, RenderState.deeds, Deed.searches, List.filterMap_reverse, List.filterMap_filterMap,
      ← List.filterMap_eq_filter]
    congr 2
    funext e
    exact e.search_eq
  rw [hsearches t, hsearches s, h, Deed.searches_append]

theorem deeds_note (e : Event) (s : RenderState) :
    deeds { s with events := e :: s.events } = s.deeds ++ e.deed?.toList := by
  cases h : e.deed? with
  | none => simp [deeds, h]
  | some d => simp [deeds, h]

theorem deeds_quiet {e : Event} (h : e.deed? = none) (s : RenderState) :
    deeds { s with events := e :: s.events } = s.deeds := by
  rw [deeds_note, h, Option.toList_none, List.append_nil]

end RenderState

end ResumableTemplates
