import ResumableTemplates.Proofs.Compile.Equations

/-! The compilation of bodies as a judgment: which ops a fragment of a body becomes between two states
of the compiler. It leaves open where texts of a block are joined, all else is as in the compiler. -/
namespace ResumableTemplates

namespace CompileState

def placed (σ : CompileState) : CompileState := { σ with position := σ.position + 1 }

def pointed (σ : CompileState) : CompileState :=
  { σ with
    position := σ.position + 1
    points := σ.points.push ⟨σ.position, σ.scopes.live⟩ }

def entered (σ : CompileState) : CompileState := { σ with scopes := σ.scopes.enter.2 }

def left (σ : CompileState) (stack : List Scope) : CompileState :=
  { σ with scopes := { σ.scopes with stack := stack } }

end CompileState

namespace Compile

variable {σ τ : CompileState} {a : α}

theorem yields_place_bind {f : Unit → Compile α} :
    (place >>= f).Yields σ a τ ↔ (f ()).Yields σ.placed a τ := by
  refine yields_bind.trans ⟨?_, fun h => ⟨(), _, yields_place.2 rfl, h⟩⟩
  rintro ⟨_, _, hplace, h⟩
  obtain rfl := yields_place.1 hplace
  exact h

theorem yields_here_bind {f : Nat → Compile α} :
    (here >>= f).Yields σ a τ ↔ (f σ.position).Yields σ a τ := by
  refine yields_bind.trans ⟨?_, fun h => ⟨_, _, yields_here.2 ⟨rfl, rfl⟩, h⟩⟩
  rintro ⟨_, _, hhere, h⟩
  obtain ⟨rfl, rfl⟩ := yields_here.1 hhere
  exact h

theorem yields_placePoint_bind {f : Nat → Compile α} (h : (placePoint >>= f).Yields σ a τ) :
    (f σ.points.size).Yields σ.pointed a τ := by
  obtain ⟨_, _, hpoint, h⟩ := yields_bind.1 h
  obtain ⟨rfl, rfl⟩ := yields_placePoint hpoint
  exact h

end Compile

/-- A fragment of a body, with the names that its ops need. -/
inductive Fragment
  | text (out : Output) (s : String)
  | node (out : Output) (n : Node)
  | block (out : Output) (pending : String) (ns : List Node)
  | optional (out : Output) (block : Option (List Node))
  | branches (out : Output) (bs : List (Expr × List Node)) (otherwise : Option (List Node))
  | selection (out : Output) (subject : Expr) (cs : List (List Expr × List Node))
      (otherwise : Option (List Node))
  | cases (out : Output) (subject : Nat) (cs : List (List Expr × List Node))
      (otherwise : Option (List Node))
  | call (out : Output) (target : CallTarget) (data : CallData) (as : List Arg)
  | args (as : List Arg) (sources : List (String × ArgSource))
  | children (out : Output) (ns : List Node)
  | scope (f : Fragment)

structure CompileState.Loops (σ : CompileState) (var : String) (index : Option String)
    (list cursor item : Nat) (position : Option Nat) (τ : CompileState) : Prop where
  declared : ∃ υ χ ψ, (Compile.temporary "loop list").Yields σ list υ ∧
    (Compile.temporary "loop cursor").Yields υ cursor χ ∧
    (Compile.declare var .unknown).Yields χ.pointed item ψ ∧
    (Node.declareIndex index).Yields ψ position τ

inductive Emits : Fragment → CompileState → List Op → CompileState → Prop
  | noText : Emits (.text out "") σ [] σ
  | text : s ≠ "" → Emits (.text out s) σ [.text σ.points.size out s] σ.pointed
  | raw : Emits (.text out s) σ ops τ → Emits (.node out (.text s)) σ ops τ
  | print : e.compile.Yields σ c υ →
      Emits (.node out (.print e)) σ [.print υ.points.size out c] υ.pointed
  | branch : Emits (.branches out bs o) σ ops τ → Emits (.node out (.branch bs o)) σ ops τ
  | switch : Emits (.scope (.selection out e cs o)) σ ops τ →
      Emits (.node out (.switch e cs o)) σ ops τ
  | each : items.compile.Yields σ c υ → υ.entered.Loops var index list cursor item position χ →
      Emits (.scope (.block out "" b)) χ.placed body ψ → ψ.scopes.stack = top :: rest →
      Emits (.node out (.each var index items b none)) σ
        (.forInit υ.points.size c list cursor none ::
          .forNext list cursor item position ψ.placed.position :: (body ++ [.jump χ.position]))
        (ψ.placed.left rest)
  | eachElse : items.compile.Yields σ c υ → υ.entered.Loops var index list cursor item position χ →
      Emits (.scope (.block out "" b)) χ.placed body ψ → ψ.scopes.stack = top :: rest →
      Emits (.scope (.block out "" d)) (ψ.placed.left rest).placed ops τ →
      Emits (.node out (.each var index items b (some d))) σ
        (.forInit υ.points.size c list cursor (some ψ.placed.placed.position) ::
          .forNext list cursor item position ψ.placed.position ::
            (body ++ .jump χ.position :: .jump τ.position :: ops)) τ
  | bind : e.compile.Yields σ c υ → (Compile.declare name .unknown).Yields υ slot χ →
      Emits (.node out (.bind name e)) σ [.store χ.points.size slot c false] χ.pointed
  | capture : (Compile.temporary "let content").Yields σ buffer υ →
      Emits (.scope (.block (.buffer buffer) "" b)) υ.placed body χ →
      (Compile.declare name (.content kind)).Yields χ dest ψ →
      Emits (.node out (.capture name kind b)) σ
        (.beginCapture buffer :: (body ++ [.endCapture buffer dest kind.rendered])) ψ.placed
  | invoke : Emits (.scope (.call out target data as)) σ ops τ →
      Emits (.node out (.call target data as)) σ ops τ
  | tag : Emits (.text out ("<" ++ name)) σ start υ → Emits (.children out ns) υ body χ →
      Emits (.text out (if selfClosing then "/>" else ">")) χ stop τ →
      Emits (.node out (.tag name ns selfClosing)) σ (start ++ body ++ stop) τ
  | done : Emits (.text out pending) σ ops τ → Emits (.block out pending []) σ ops τ
  | join : Emits (.block out (pending ++ s) ns) σ ops τ →
      Emits (.block out pending (.text s :: ns)) σ ops τ
  | cons : Emits (.text out pending) σ before υ → Emits (.node out n) υ ops χ →
      Emits (.block out "" ns) χ rest τ →
      Emits (.block out pending (n :: ns)) σ (before ++ ops ++ rest) τ
  | absent : Emits (.optional out none) σ [] σ
  | present : Emits (.scope (.block out "" b)) σ ops τ → Emits (.optional out (some b)) σ ops τ
  | otherwise : Emits (.optional out o) σ ops τ → Emits (.branches out [] o) σ ops τ
  | test : e.compile.Yields σ c υ → Emits (.scope (.block out "" b)) υ.pointed body χ →
      Emits (.branches out bs o) χ.placed rest τ →
      Emits (.branches out ((e, b) :: bs) o) σ
        (.branchUnless υ.points.size c χ.placed.position :: (body ++ .jump τ.position :: rest)) τ
  | selection : e.compile.Yields σ c υ →
      (Compile.temporary "switch subject").Yields υ subject χ →
      Emits (.cases out subject cs o) χ.pointed ops τ →
      Emits (.selection out e cs o) σ (.store χ.points.size subject c true :: ops) τ
  | noCase : Emits (.optional out o) σ ops τ → Emits (.cases out subject [] o) σ ops τ
  | case : (Expr.compileAll es).Yields σ values υ →
      Emits (.scope (.block out "" b)) υ.pointed body χ →
      Emits (.cases out subject cs o) χ.placed rest τ →
      Emits (.cases out subject ((es, b) :: cs) o) σ
        (.branchUnlessMatch υ.points.size subject values χ.placed.position ::
          (body ++ .jump τ.position :: rest)) τ
  | call : Emits (.args as sources) σ ops υ → (Compile.paramsBase data).Yields υ base χ →
      (Compile.callee target).Yields χ callee ψ →
      Emits (.call out target data as) σ (ops ++ [.call ψ.points.size out callee base sources])
        ψ.pointed
  | noArgs : Emits (.args [] []) σ [] σ
  | value : e.compile.Yields σ c υ → Emits (.args as sources) υ ops τ →
      Emits (.args (.value name e :: as) ((name, .code c) :: sources)) σ ops τ
  | content : (Compile.temporary "call param").Yields σ buffer υ →
      Emits (.scope (.block (.buffer buffer) "" b)) υ.placed body χ →
      Emits (.args as sources) χ.placed ops τ →
      Emits (.args (.content name kind b :: as) ((name, .slot buffer) :: sources)) σ
        (.beginCapture buffer :: (body ++ .endCapture buffer buffer kind.rendered :: ops)) τ
  | noChildren : Emits (.children out []) σ [] σ
  | keyed : e.compile.Yields σ c υ → Emits (.children out ns) υ ops τ →
      Emits (.children out (.key e :: ns)) σ ops τ
  | child : Emits (.node out n) σ ops υ → Emits (.children out ns) υ rest τ →
      Emits (.children out (n :: ns)) σ (ops ++ rest) τ
  | scope : Emits f σ.entered ops τ → τ.scopes.stack = top :: rest →
      Emits (.scope f) σ ops (τ.left rest)

section Emits

open Compile Node

variable {joins : Bool} {out : Output} {σ τ : CompileState} {ops : List Op}

theorem emits_text {s : String} (h : (writeText out s).Yields σ ops τ) :
    Emits (.text out s) σ ops τ := by
  unfold writeText at h
  split at h
  · rename_i hs
    obtain ⟨rfl, rfl⟩ := yields_pure.1 h
    exact hs ▸ .noText
  · rename_i hs
    replace h := yields_placePoint_bind h
    obtain ⟨rfl, rfl⟩ := yields_pure.1 h
    exact .text hs

theorem emits_scope {m : Compile (List Op)} {f : Fragment}
    (hm : ∀ σ ops τ, m.Yields σ ops τ → Emits f σ ops τ) (h : (inScope m).Yields σ ops τ) :
    Emits (.scope f) σ ops τ := by
  obtain ⟨υ, top, rest, hυ, hstack, rfl⟩ := yields_inScope h
  exact .scope (hm _ _ _ hυ) hstack

theorem emits_selection {e : Expr} {cs : List (List Expr × List Node)} {o : Option (List Node)}
    {cases : Nat → Compile (List Op)}
    (hcases : ∀ subject σ ops τ, (cases subject).Yields σ ops τ →
      Emits (.cases out subject cs o) σ ops τ)
    (h : (do
      let value ← e.compile
      let subject ← temporary "switch subject"
      let point ← placePoint
      let ops ← cases subject
      return .store point subject value true :: ops : Compile (List Op)).Yields σ ops τ) :
    Emits (.selection out e cs o) σ ops τ := by
  obtain ⟨c, υ, hc, h⟩ := yields_bind.1 h
  obtain ⟨subject, χ, hsubject, h⟩ := yields_bind.1 h
  obtain ⟨xs, _, hxs, h⟩ := yields_bind.1 (yields_placePoint_bind h)
  obtain ⟨rfl, rfl⟩ := yields_pure.1 h
  exact .selection hc hsubject (hcases _ _ _ _ hxs)

theorem emits_loop {var : String} {index : Option String} {items : Code} {b : List Node}
    (hb : ∀ σ ops τ, (compileBlock joins out "" b).Yields σ ops τ →
      Emits (.block out "" b) σ ops τ) {r : (Option Nat → Op) × List Op}
    (h : (compileLoop joins out var index items b).Yields σ r τ) :
    ∃ list cursor item position χ body ψ top rest,
      σ.entered.Loops var index list cursor item position χ ∧
      Emits (.scope (.block out "" b)) χ.placed body ψ ∧ ψ.scopes.stack = top :: rest ∧
      r = (.forInit σ.points.size items list cursor,
        .forNext list cursor item position ψ.placed.position :: (body ++ [.jump χ.position])) ∧
      τ = ψ.placed.left rest := by
  obtain ⟨_, top, rest, hloop, hstack, rfl⟩ := yields_inScope h
  obtain ⟨list, υ, hlist, h⟩ := yields_bind.1 hloop
  obtain ⟨_, hs, rfl⟩ := yields_onScopes.1 hlist
  obtain ⟨cursor, χ, hcursor, h⟩ := yields_bind.1 h
  obtain ⟨_, hs', rfl⟩ := yields_onScopes.1 hcursor
  obtain ⟨item, χ, hitem, h⟩ := yields_bind.1 (yields_placePoint_bind h)
  obtain ⟨position, ψ, hposition, h⟩ := yields_bind.1 h
  rw [yields_here_bind, yields_place_bind] at h
  obtain ⟨body, ω, hbody, h⟩ := yields_bind.1 h
  rw [yields_place_bind, yields_here_bind] at h
  obtain ⟨rfl, rfl⟩ := yields_pure.1 h
  exact ⟨list, cursor, item, position, _, body, ω, top, rest, ⟨_, _, _, hlist, hcursor, hitem,
    hposition⟩, emits_scope hb hbody, hstack, rfl, rfl⟩

mutual

/-- What the compiler yields for a statement, the judgment has. -/
theorem emits_node : (n : Node) → (out : Output) → (σ : CompileState) → (ops : List Op) →
    (τ : CompileState) → (n.compile joins out).Yields σ ops τ → Emits (.node out n) σ ops τ
  | .text s, out, σ, ops, τ, h => .raw (emits_text h)
  | .print e, out, σ, ops, τ, h => by
    rw [compile_print] at h
    obtain ⟨c, υ, hc, h⟩ := yields_bind.1 h
    replace h := yields_placePoint_bind h
    obtain ⟨rfl, rfl⟩ := yields_pure.1 h
    exact .print hc
  | .branch bs none, out, σ, ops, τ, h =>
    .branch (emits_branches bs out none (fun _ _ _ h => by
      obtain ⟨rfl, rfl⟩ := yields_pure.1 h
      exact .absent) σ ops τ h)
  | .branch bs (some b), out, σ, ops, τ, h =>
    .branch (emits_branches bs out (some b) (fun _ _ _ h =>
      .present (emits_scope (emits_block b out "") h)) σ ops τ h)
  | .switch e cs none, out, σ, ops, τ, h =>
    .switch (emits_scope (fun _ _ _ h => emits_selection (emits_cases cs out none (fun _ _ _ h => by
      obtain ⟨rfl, rfl⟩ := yields_pure.1 h
      exact .absent)) h) h)
  | .switch e cs (some b), out, σ, ops, τ, h =>
    .switch (emits_scope (fun _ _ _ h => emits_selection (emits_cases cs out (some b)
      (fun _ _ _ h => .present (emits_scope (emits_block b out "") h))) h) h)
  | .each var index items b none, out, σ, ops, τ, h => by
    rw [compile_each] at h
    obtain ⟨c, υ, hc, h⟩ := yields_bind.1 h
    obtain ⟨⟨start, loop⟩, _, hloop, h⟩ := yields_bind.1 h
    obtain ⟨rfl, rfl⟩ := yields_pure.1 h
    obtain ⟨list, cursor, item, position, χ, body, ψ, top, rest, hpre, hbody, hstack, hpair, rfl⟩ :=
      emits_loop (emits_block b out "") hloop
    cases hpair
    exact .each hc hpre hbody hstack
  | .each var index items b (some d), out, σ, ops, τ, h => by
    rw [compile_each] at h
    obtain ⟨c, υ, hc, h⟩ := yields_bind.1 h
    obtain ⟨⟨start, loop⟩, _, hloop, h⟩ := yields_bind.1 h
    obtain ⟨list, cursor, item, position, χ, body, ψ, top, rest, hpre, hbody, hstack, hpair, rfl⟩ :=
      emits_loop (emits_block b out "") hloop
    cases hpair
    rw [yields_place_bind, yields_here_bind] at h
    obtain ⟨other, _, hother, h⟩ := yields_bind.1 h
    rw [yields_here_bind] at h
    obtain ⟨rfl, rfl⟩ := yields_pure.1 h
    have := Emits.eachElse hc hpre hbody hstack (emits_scope (emits_block d out "") hother)
    simp only [List.cons_append, List.append_assoc, List.nil_append]
    exact this
  | .bind name e, out, σ, ops, τ, h => by
    rw [compile_bind] at h
    obtain ⟨c, υ, hc, h⟩ := yields_bind.1 h
    obtain ⟨slot, χ, hslot, h⟩ := yields_bind.1 h
    replace h := yields_placePoint_bind h
    obtain ⟨rfl, rfl⟩ := yields_pure.1 h
    exact .bind hc hslot
  | .capture name kind b, out, σ, ops, τ, h => by
    rw [compile_capture] at h
    obtain ⟨buffer, υ, hbuffer, h⟩ := yields_bind.1 h
    rw [yields_place_bind] at h
    obtain ⟨body, χ, hbody, h⟩ := yields_bind.1 h
    obtain ⟨dest, ψ, hdest, h⟩ := yields_bind.1 h
    rw [yields_place_bind] at h
    obtain ⟨rfl, rfl⟩ := yields_pure.1 h
    exact .capture hbuffer (emits_scope (emits_block b _ "") hbody) hdest
  | .call target data as, out, σ, ops, τ, h =>
    .invoke (emits_scope (fun σ ops τ h => by
      obtain ⟨⟨captures, args⟩, υ, hargs, h⟩ := yields_bind.1 h
      obtain ⟨base, χ, hbase, h⟩ := yields_bind.1 h
      obtain ⟨callee, ψ, hcallee, h⟩ := yields_bind.1 h
      replace h := yields_placePoint_bind h
      obtain ⟨rfl, rfl⟩ := yields_pure.1 h
      exact .call (emits_args as _ _ _ hargs) hbase hcallee)
      (compile_call joins out target data as ▸ h))
  | .tag name ns selfClosing, out, σ, ops, τ, h => by
    rw [compile_tag] at h
    obtain ⟨start, υ, hstart, h⟩ := yields_bind.1 h
    obtain ⟨body, χ, hbody, h⟩ := yields_bind.1 h
    obtain ⟨stop, ψ, hstop, h⟩ := yields_bind.1 h
    obtain ⟨rfl, rfl⟩ := yields_pure.1 h
    exact .tag (emits_text hstart) (emits_children ns out _ _ _ hbody) (emits_text hstop)
  | .key e, out, σ, ops, τ, h => (not_yields_contradiction h).elim

theorem emits_block : (ns : List Node) → (out : Output) → (pending : String) →
    (σ : CompileState) → (ops : List Op) → (τ : CompileState) →
    (compileBlock joins out pending ns).Yields σ ops τ → Emits (.block out pending ns) σ ops τ
  | [], out, pending, σ, ops, τ, h => .done (emits_text h)
  | n :: ns, out, pending, σ, ops, τ, h => by
    by_cases hjoin : joins = true ∧ ∃ s, n = .text s
    · obtain ⟨hj, s, rfl⟩ := hjoin
      refine .join (emits_block ns out _ σ ops τ ?_)
      rw [hj] at h ⊢
      exact h
    · rw [compileBlock_cons out fun hj s hn => hjoin ⟨hj, s, hn⟩] at h
      obtain ⟨before, υ, hbefore, h⟩ := yields_bind.1 h
      obtain ⟨xs, χ, hn, h⟩ := yields_bind.1 h
      obtain ⟨rest, ψ, hrest, h⟩ := yields_bind.1 h
      obtain ⟨rfl, rfl⟩ := yields_pure.1 h
      exact .cons (emits_text hbefore) (emits_node n out _ _ _ hn)
        (emits_block ns out "" _ _ _ hrest)

theorem emits_branches : (bs : List (Expr × List Node)) → (out : Output) →
    (o : Option (List Node)) → {otherwise : Compile (List Op)} →
    (∀ σ ops τ, otherwise.Yields σ ops τ → Emits (.optional out o) σ ops τ) →
    (σ : CompileState) → (ops : List Op) → (τ : CompileState) →
    (compileBranches joins out bs otherwise).Yields σ ops τ → Emits (.branches out bs o) σ ops τ
  | [], out, o, _, ho, σ, ops, τ, h => .otherwise (ho _ _ _ h)
  | (e, b) :: bs, out, o, _, ho, σ, ops, τ, h => by
    rw [compileBranches_cons] at h
    obtain ⟨c, υ, hc, h⟩ := yields_bind.1 h
    obtain ⟨body, χ, hbody, h⟩ := yields_bind.1 (yields_placePoint_bind h)
    rw [yields_place_bind, yields_here_bind] at h
    obtain ⟨rest, _, hrest, h⟩ := yields_bind.1 h
    rw [yields_here_bind] at h
    obtain ⟨rfl, rfl⟩ := yields_pure.1 h
    exact .test hc (emits_scope (emits_block b out "") hbody)
      (emits_branches bs out o ho _ _ _ hrest)

theorem emits_cases : (cs : List (List Expr × List Node)) → (out : Output) →
    (o : Option (List Node)) → {otherwise : Compile (List Op)} →
    (∀ σ ops τ, otherwise.Yields σ ops τ → Emits (.optional out o) σ ops τ) → (subject : Nat) →
    (σ : CompileState) → (ops : List Op) → (τ : CompileState) →
    (compileCases joins out subject cs otherwise).Yields σ ops τ →
    Emits (.cases out subject cs o) σ ops τ
  | [], out, o, _, ho, subject, σ, ops, τ, h => .noCase (ho _ _ _ h)
  | (es, b) :: cs, out, o, _, ho, subject, σ, ops, τ, h => by
    rw [compileCases_cons] at h
    obtain ⟨c, υ, hc, h⟩ := yields_bind.1 h
    obtain ⟨body, χ, hbody, h⟩ := yields_bind.1 (yields_placePoint_bind h)
    rw [yields_place_bind, yields_here_bind] at h
    obtain ⟨rest, _, hrest, h⟩ := yields_bind.1 h
    rw [yields_here_bind] at h
    obtain ⟨rfl, rfl⟩ := yields_pure.1 h
    exact .case hc (emits_scope (emits_block b out "") hbody)
      (emits_cases cs out o ho subject _ _ _ hrest)

theorem emits_args : (as : List Arg) → (σ : CompileState) →
    (r : List Op × List (String × ArgSource)) → (τ : CompileState) →
    (compileArgs joins as).Yields σ r τ → Emits (.args as r.2) σ r.1 τ
  | [], σ, r, τ, h => by
    obtain ⟨rfl, rfl⟩ := yields_pure.1 h
    exact .noArgs
  | .value name e :: as, σ, r, τ, h => by
    rw [compileArgs_value] at h
    obtain ⟨c, υ, hc, h⟩ := yields_bind.1 h
    obtain ⟨⟨xs, args⟩, _, hargs, h⟩ := yields_bind.1 h
    obtain ⟨rfl, rfl⟩ := yields_pure.1 h
    exact .value hc (emits_args as _ _ _ hargs)
  | .content name kind b :: as, σ, r, τ, h => by
    rw [compileArgs_content] at h
    obtain ⟨buffer, υ, hbuffer, h⟩ := yields_bind.1 h
    rw [yields_place_bind] at h
    obtain ⟨body, χ, hbody, h⟩ := yields_bind.1 h
    rw [yields_place_bind] at h
    obtain ⟨⟨xs, args⟩, _, hargs, h⟩ := yields_bind.1 h
    obtain ⟨rfl, rfl⟩ := yields_pure.1 h
    exact .content hbuffer (emits_scope (emits_block b _ "") hbody) (emits_args as _ _ _ hargs)

theorem emits_children : (ns : List Node) → (out : Output) → (σ : CompileState) →
    (ops : List Op) → (τ : CompileState) → (compileChildren joins out ns).Yields σ ops τ →
    Emits (.children out ns) σ ops τ
  | [], out, σ, ops, τ, h => by
    obtain ⟨rfl, rfl⟩ := yields_pure.1 h
    exact .noChildren
  | n :: ns, out, σ, ops, τ, h => by
    by_cases hkey : ∃ e, n = .key e
    · obtain ⟨e, rfl⟩ := hkey
      rw [compileChildren_key] at h
      obtain ⟨c, υ, hc, h⟩ := yields_bind.1 h
      exact .keyed hc (emits_children ns out _ _ _ h)
    · rw [compileChildren_cons joins out fun e he => hkey ⟨e, he⟩] at h
      obtain ⟨xs, υ, hn, h⟩ := yields_bind.1 h
      obtain ⟨rest, χ, hrest, h⟩ := yields_bind.1 h
      obtain ⟨rfl, rfl⟩ := yields_pure.1 h
      exact .child (emits_node n out _ _ _ hn) (emits_children ns out _ _ _ hrest)

end

end Emits

end ResumableTemplates
