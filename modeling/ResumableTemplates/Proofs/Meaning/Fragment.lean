import ResumableTemplates.Proofs.Compile.Emits
import ResumableTemplates.Proofs.Meaning.Steps

/-! What fragments mean, the pieces of a body that the compiler emits ops for: each as the interpretation
of the statements that it is made of. -/
namespace ResumableTemplates

namespace Fragment

variable (S : Sources) (run : TemplateRef → Record → Written Unit) (unit : Nat)

def interpret (owner : String) (u : Value) : Fragment → Names → Written Names
  | text _ s, ρ => do
    Written.write s
    return ρ
  | node _ n, ρ => n.interpret S run unit owner ρ
  | block _ pending ns, ρ => do
    Written.write pending
    Node.interpretBlock S run unit owner ns ρ
  | optional _ o, ρ => do
    Node.interpretElse S run unit owner o ρ
    return ρ
  | branches _ bs o, ρ => do
    Node.interpretBranches S run unit owner bs (Node.interpretElse S run unit owner o) ρ
    return ρ
  | selection _ e cs o, ρ => do
    Node.interpretCases S run unit owner (← e.outcome S unit owner ρ) cs
      (Node.interpretElse S run unit owner o) ρ
    return ρ
  | cases _ _ cs o, ρ => do
    Node.interpretCases S run unit owner u cs (Node.interpretElse S run unit owner o) ρ
    return ρ
  | call _ target data as, ρ => (Node.call target data as).interpret S run unit owner ρ
  | args as _, ρ => do
    let _ ← Node.interpretContents S run unit owner as ρ
    return ρ
  | children _ ns, ρ => Node.interpretChildren S run unit owner ns ρ
  | scope f, ρ => do
    let _ ← f.interpret owner u ρ
    return ρ

attribute [grind =] interpret

def Delivers (w : World) (owner : String) (ρ : Names) (b : Activation) : Fragment → Prop
  | args as sources => ∀ vs, (Node.interpretContents S run unit owner as ρ).result = .ok vs →
      ∀ r, b.withArgs w r sources = Arg.layAll S unit owner ρ r as vs
  | _ => True

section Equations

variable {S run unit} {owner : String} {u : Value} {out : Output} {ρ : Names}

theorem interpret_switch (e : Expr) (cs : List (List Expr × List Node)) (o : Option (List Node)) :
    (node out (.switch e cs o)).interpret S run unit owner u ρ =
      (scope (selection out e cs o)).interpret S run unit owner u ρ := by
  simp only [interpret, Node.interpret, bind_assoc, pure_bind]

theorem interpret_invoke (target : CallTarget) (data : CallData) (as : List Arg) :
    (node out (.call target data as)).interpret S run unit owner u ρ =
      (scope (call out target data as)).interpret S run unit owner u ρ := by
  simp only [interpret, Node.interpret, bind_assoc]
  refine bind_congr fun contents => bind_congr fun r => bind_congr fun params => ?_
  refine bind_congr fun t => ?_
  cases t <;> simp only [bind_assoc, pure_bind]

theorem interpret_join (pending s : String) (ns : List Node) :
    (block out pending (.text s :: ns)).interpret S run unit owner u ρ =
      (block out (pending ++ s) ns).interpret S run unit owner u ρ := by
  simp only [interpret, Node.interpretBlock, Node.interpret, Written.write_append, bind_assoc,
    pure_bind]

theorem interpret_cons (pending : String) (n : Node) (ns : List Node) :
    (block out pending (n :: ns)).interpret S run unit owner u ρ =
      ((text out pending).interpret S run unit owner u ρ >>= fun ρ =>
        (node out n).interpret S run unit owner u ρ >>=
          (block out "" ns).interpret S run unit owner u) := by
  simp only [interpret, Node.interpretBlock, Written.write_empty, bind_assoc, pure_bind]

theorem interpret_scope_block (b : List Node) :
    (scope (block out "" b)).interpret S run unit owner u ρ = do
      let _ ← Node.interpretBlock S run unit owner b ρ
      return ρ := by
  simp only [interpret, Written.write_empty, pure_bind]

theorem interpret_scope_block_bind {α : Type} (b : List Node) (x : Written α) :
    (scope (block out "" b)).interpret S run unit owner u ρ >>= (fun _ => x) =
      (Node.interpretBlock S run unit owner b ρ >>= fun _ => pure ()) >>= fun _ => x := by
  simp only [interpret_scope_block, bind_assoc, pure_bind]

theorem interpret_present (b : List Node) : (optional out (some b)).interpret S run unit owner u ρ =
    (scope (block out "" b)).interpret S run unit owner u ρ := by
  rw [interpret_scope_block]
  simp only [interpret, Node.interpretElse, bind_assoc, pure_bind]

theorem interpret_test (e : Expr) (b : List Node) (bs : List (Expr × List Node))
    (o : Option (List Node)) : (branches out ((e, b) :: bs) o).interpret S run unit owner u ρ = (do
      if (← e.outcome S unit owner ρ).isTruthy then
        interpret S run unit owner u (scope (block out "" b)) ρ
      else interpret S run unit owner u (branches out bs o) ρ) := by
  rw [interpret_scope_block]
  simp only [interpret, Node.interpretBranches, bind_assoc]
  refine bind_congr fun v => ?_
  split <;> simp only [bind_assoc, pure_bind]

theorem interpret_selection (e : Expr) (subject : Nat) (cs : List (List Expr × List Node))
    (o : Option (List Node)) : (selection out e cs o).interpret S run unit owner u ρ = (do
      interpret S run unit owner (← e.outcome S unit owner ρ) (cases out subject cs o) ρ) := by
  simp only [interpret]

theorem interpret_case (es : List Expr) (b : List Node) (subject : Nat)
    (cs : List (List Expr × List Node)) (o : Option (List Node)) :
    (cases out subject ((es, b) :: cs) o).interpret S run unit owner u ρ = (do
      if ← Expr.matched S unit owner ρ u es then
        interpret S run unit owner u (scope (block out "" b)) ρ
      else interpret S run unit owner u (cases out subject cs o) ρ) := by
  rw [interpret_scope_block]
  simp only [interpret, Node.interpretCases, bind_assoc]
  refine bind_congr fun v => ?_
  split <;> simp only [bind_assoc, pure_bind]

theorem interpret_tag (name : String) (ns : List Node) (selfClosing : Bool) :
    (node out (.tag name ns selfClosing)).interpret S run unit owner u ρ =
      ((text out ("<" ++ name)).interpret S run unit owner u ρ >>= fun ρ =>
        (children out ns).interpret S run unit owner u ρ >>=
          (text out (if selfClosing then "/>" else ">")).interpret S run unit owner u) := by
  simp only [interpret, Node.interpret, bind_assoc, pure_bind]

theorem interpret_child {n : Node} (hn : ∀ e, n ≠ .key e) (ns : List Node) :
    (children out (n :: ns)).interpret S run unit owner u ρ =
      (node out n).interpret S run unit owner u ρ >>=
        (children out ns).interpret S run unit owner u := by
  cases n with
  | key e => exact absurd rfl (hn e)
  | _ => rfl

theorem interpretContents_content (name : String) (kind : DeclaredKind) (b : List Node)
    (as : List Arg) : Node.interpretContents S run unit owner (.content name kind b :: as) ρ = (do
      let v ← (do
        let text ← (Node.interpretBlock S run unit owner b ρ).captured
        return Activation.captured kind.rendered text)
      return v :: (← Node.interpretContents S run unit owner as ρ)) := by
  simp only [Node.interpretContents, bind_assoc, pure_bind]

theorem interpret_content (name : String) (kind : DeclaredKind) (b : List Node) (as : List Arg)
    (sources ss : List (String × ArgSource)) :
    (args (.content name kind b :: as) ss).interpret S run unit owner u ρ = (do
      let _ ← (do
        let text ← (Node.interpretBlock S run unit owner b ρ).captured
        return Activation.captured kind.rendered text)
      interpret S run unit owner u (args as sources) ρ) := by
  simp only [interpret, interpretContents_content, bind_assoc, pure_bind]

end Equations

end Fragment

end ResumableTemplates
