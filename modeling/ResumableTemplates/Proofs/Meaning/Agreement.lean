import ResumableTemplates.Proofs.Meaning.Interpreter

/-! What a meaning depends on. Sources in which names stand for the same mean the same, however their
units were compiled. -/
namespace ResumableTemplates

/-- Holds of sources that agree in all that a meaning takes from them. -/
structure Sources.Agrees (S T : Sources) : Prop where
  injected : S.injected = T.injected
  maxDepth : S.maxDepth = T.maxDepth
  hosts : S.library.hosts = T.library.hosts
  source : S.source? = T.source?
  find : S.find = T.find
  describe : S.describe = T.describe
  delegate : S.lookup.delegate? = T.lookup.delegate?

namespace Sources.Agrees

variable {S T : Sources}

theorem nameOf (h : S.Agrees T) : S.library.nameOf = T.library.nameOf := by
  funext t
  cases t with
  | compiled => rfl
  | host i => simp only [Library.nameOf, h.hosts]

section Expressions

variable {unit : Nat} {owner : String} {ρ : Names}

mutual

theorem meaning (h : S.Agrees T) (e : Expr) : e.meaning S unit owner ρ = e.meaning T unit owner ρ := by
  cases e with
  | literal l => rfl
  | var v => rw [Expr.meaning, Expr.meaning, h.injected]
  | binary op l r => rw [Expr.meaning, Expr.meaning, h.meaning l, h.meaning r]
  | unary op e => rw [Expr.meaning, Expr.meaning, h.meaning e]
  | cond c t e => rw [Expr.meaning, Expr.meaning, h.meaning c, h.meaning t, h.meaning e]
  | list es => rw [Expr.meaning, Expr.meaning, h.meanings es]
  | record fs => rw [Expr.meaning, Expr.meaning, h.fieldMeanings fs]
  | field b name nullSafe => rw [Expr.meaning, Expr.meaning, h.meaning b]
  | index b k => rw [Expr.meaning, Expr.meaning, h.meaning b, h.meaning k]
  | builtin f es => rw [Expr.meaning, Expr.meaning, h.meanings es]
  | template name => rw [Expr.meaning, Expr.meaning, h.find, h.nameOf]
  | element id name table =>
    cases table with
    | none => rfl
    | some table => rw [Expr.meaning, Expr.meaning, h.describe]

theorem meanings (h : S.Agrees T) (es : List Expr) :
    Expr.meanings S unit owner ρ es = Expr.meanings T unit owner ρ es := by
  cases es with
  | nil => rfl
  | cons e es => rw [Expr.meanings, Expr.meanings, h.meaning e, h.meanings es]

theorem fieldMeanings (h : S.Agrees T) (fs : List (String × Expr)) :
    Expr.fieldMeanings S unit owner ρ fs = Expr.fieldMeanings T unit owner ρ fs := by
  match fs with
  | [] => rfl
  | (k, e) :: fs => rw [Expr.fieldMeanings, Expr.fieldMeanings, h.meaning e, h.fieldMeanings fs]

end

section

variable (h : S.Agrees T)

include h

theorem outcome (e : Expr) : e.outcome S unit owner ρ = e.outcome T unit owner ρ := by
  rw [Expr.outcome, Expr.outcome, h.meaning]

theorem matched (subject : Value) (es : List Expr) :
    Expr.matched S unit owner ρ subject es = Expr.matched T unit owner ρ subject es := by
  induction es with
  | nil => rfl
  | cons e es ih => rw [Expr.matched, Expr.matched, h.outcome, ih]

theorem data (d : CallData) : d.meaning S unit owner ρ = d.meaning T unit owner ρ := by
  cases d with
  | expr e => rw [CallData.meaning, CallData.meaning, h.outcome]
  | _ => rfl

theorem target (t : CallTarget) : t.meaning S unit owner ρ = t.meaning T unit owner ρ := by
  cases t with
  | template name => rw [CallTarget.meaning.eq_def, CallTarget.meaning.eq_def, h.find]
  | delegate name variant allowEmpty =>
    rw [CallTarget.meaning.eq_def, CallTarget.meaning.eq_def]
    simp only [h.delegate, h.outcome]

theorem layAll (r : Record) (as : List Arg) (contents : List Value) :
    Arg.layAll S unit owner ρ r as contents = Arg.layAll T unit owner ρ r as contents := by
  induction as generalizing r contents with
  | nil => rfl
  | cons a as ih =>
    match a, contents with
    | .value name e, contents => simp only [Arg.layAll, h.meaning, ih]
    | .content .., c :: contents => exact ih _ contents
    | .content .., [] => exact ih r []

theorem param (p : Param) : p.meaning S unit owner ρ = p.meaning T unit owner ρ := by
  rw [Param.meaning, Param.meaning, h.injected]
  cases p.default with
  | none => rfl
  | some e => simp only [h.meaning]

theorem bindParams (ρ : Names) (ps : List Param) :
    Template.bindParams S unit owner ρ ps = Template.bindParams T unit owner ρ ps := by
  induction ps generalizing ρ with
  | nil => rfl
  | cons p ps ih => simp only [Template.bindParams, h.param, ih]

theorem bindState (ρ : Names) (vs : List StateVar) :
    Template.bindState S unit owner ρ vs = Template.bindState T unit owner ρ vs := by
  induction vs generalizing ρ with
  | nil => rfl
  | cons v vs ih => simp only [Template.bindState, h.meaning, ih]

end

end Expressions

section Statements

variable {run : TemplateRef → Record → Written Unit} {unit : Nat} {owner : String}

mutual

theorem interpret (h : S.Agrees T) (n : Node) :
    n.interpret S run unit owner = n.interpret T run unit owner := by
  funext ρ
  cases n with
  | text s => rfl
  | print e => rw [Node.interpret, Node.interpret, h.outcome]
  | branch bs o => rw [Node.interpret, Node.interpret, h.interpretElse o, h.interpretBranches bs]
  | switch e cs o =>
    simp only [Node.interpret, h.outcome, h.interpretElse o, h.interpretCases _ cs]
  | each var index items b ifEmpty =>
    rw [Node.interpret, Node.interpret, h.outcome, h.interpretElse ifEmpty, h.interpretBlock b]
  | bind name e => rw [Node.interpret, Node.interpret, h.meaning]
  | capture name kind b => rw [Node.interpret, Node.interpret, h.interpretBlock b]
  | call target data as =>
    simp only [Node.interpret, h.interpretContents as, h.layAll, h.data, h.target]
  | tag name children selfClosing => rw [Node.interpret, Node.interpret, h.interpretChildren children]
  | key e => rfl

theorem interpretBlock (h : S.Agrees T) (ns : List Node) :
    Node.interpretBlock S run unit owner ns = Node.interpretBlock T run unit owner ns := by
  funext ρ
  cases ns with
  | nil => rfl
  | cons n ns => rw [Node.interpretBlock, Node.interpretBlock, h.interpret n, h.interpretBlock ns]

theorem interpretElse (h : S.Agrees T) (o : Option (List Node)) :
    Node.interpretElse S run unit owner o = Node.interpretElse T run unit owner o := by
  funext ρ
  cases o with
  | none => rfl
  | some b => rw [Node.interpretElse, Node.interpretElse, h.interpretBlock b]

theorem interpretBranches (h : S.Agrees T) (bs : List (Expr × List Node)) :
    Node.interpretBranches S run unit owner bs = Node.interpretBranches T run unit owner bs := by
  funext o ρ
  match bs with
  | [] => rfl
  | (e, b) :: bs =>
    rw [Node.interpretBranches, Node.interpretBranches, h.outcome, h.interpretBlock b,
      h.interpretBranches bs]

theorem interpretCases (h : S.Agrees T) (subject : Value) (cs : List (List Expr × List Node)) :
    Node.interpretCases S run unit owner subject cs =
      Node.interpretCases T run unit owner subject cs := by
  funext o ρ
  match cs with
  | [] => rfl
  | (es, b) :: cs =>
    rw [Node.interpretCases, Node.interpretCases, h.matched, h.interpretBlock b,
      h.interpretCases subject cs]

theorem interpretContents (h : S.Agrees T) (as : List Arg) :
    Node.interpretContents S run unit owner as = Node.interpretContents T run unit owner as := by
  funext ρ
  match as with
  | [] => rfl
  | .value name e :: as => exact congrFun (h.interpretContents as) ρ
  | .content name kind b :: as =>
    rw [Node.interpretContents, Node.interpretContents, h.interpretBlock b, h.interpretContents as]

theorem interpretChildren (h : S.Agrees T) (ns : List Node) :
    Node.interpretChildren S run unit owner ns = Node.interpretChildren T run unit owner ns := by
  funext ρ
  cases ns with
  | nil => rfl
  | cons n ns =>
    cases n with
    | key e => exact congrFun (h.interpretChildren ns) ρ
    | _ => simp only [Node.interpretChildren, h.interpret, h.interpretChildren ns]

end

theorem renderTemplate (h : S.Agrees T) : S.renderTemplate run = T.renderTemplate run := by
  funext t params
  cases t with
  | compiled unit name =>
    rw [Sources.renderTemplate, Sources.renderTemplate, h.source]
    split
    · simp only [Template.interpret, h.bindParams, h.bindState, h.interpretBlock]
    · rfl
  | host i => rw [Sources.renderTemplate, Sources.renderTemplate, h.hosts]

/-- Sources that agree render the same, however deep calls nest. -/
theorem render (h : S.Agrees T) (levels : Nat) : S.render levels = T.render levels := by
  induction levels with
  | zero => rw [Sources.render, Sources.render, h.renderTemplate, h.nameOf, h.maxDepth]
  | succ levels ih => rw [Sources.render, Sources.render, h.renderTemplate, ih]

end Statements

end Sources.Agrees

end ResumableTemplates
