import ResumableTemplates.Tree.Template

/-!
The walk over a template: every statement, call and expression in source order, each before its
parts. A header comes before the body, a condition before the block it guards; of a call, first
the variant, then the data, then the arguments.
-/
namespace ResumableTemplates

inductive Visit
  | node (n : Node)
  | call (target : CallTarget) (args : List Arg)
  | expr (e : Expr)

mutual

def Expr.visits : Expr → List Visit
  | .literal l => [.expr (.literal l)]
  | .var v => [.expr (.var v)]
  | .binary op l r => .expr (.binary op l r) :: (l.visits ++ r.visits)
  | .unary op e => .expr (.unary op e) :: e.visits
  | .cond c t e => .expr (.cond c t e) :: (c.visits ++ t.visits ++ e.visits)
  | .list es => .expr (.list es) :: Expr.visitsAll es
  | .record fs => .expr (.record fs) :: Expr.visitsFields fs
  | .field b n s => .expr (.field b n s) :: b.visits
  | .index b k => .expr (.index b k) :: (b.visits ++ k.visits)
  | .builtin f es => .expr (.builtin f es) :: Expr.visitsAll es
  | .template n => [.expr (.template n)]
  | .element i n t => [.expr (.element i n t)]

def Expr.visitsAll : List Expr → List Visit
  | [] => []
  | e :: es => e.visits ++ Expr.visitsAll es

def Expr.visitsFields : List (String × Expr) → List Visit
  | [] => []
  | (_, e) :: fs => e.visits ++ Expr.visitsFields fs

end

def CallTarget.visits : CallTarget → List Visit
  | .delegate _ (some v) _ => v.visits
  | _ => []

def CallData.visits : CallData → List Visit
  | .expr e => e.visits
  | _ => []

mutual

def Node.visits : Node → List Visit
  | .text s => [.node (.text s)]
  | .print e => .node (.print e) :: e.visits
  | .branch bs o => .node (.branch bs o) :: (Node.visitsBranches bs ++
      match o with
      | none => []
      | some b => Node.visitsAll b)
  | .switch e cs o => .node (.switch e cs o) :: (e.visits ++ Node.visitsCases cs ++
      match o with
      | none => []
      | some b => Node.visitsAll b)
  | .each v i e b o => .node (.each v i e b o) :: (e.visits ++ Node.visitsAll b ++
      match o with
      | none => []
      | some b => Node.visitsAll b)
  | .bind n e => .node (.bind n e) :: e.visits
  | .capture n k b => .node (.capture n k b) :: Node.visitsAll b
  | .call t d as =>
      .node (.call t d as) :: .call t as :: (t.visits ++ d.visits ++ Node.visitsArgs as)
  | .tag n cs s => .node (.tag n cs s) :: Node.visitsAll cs
  | .key e => .node (.key e) :: e.visits

def Node.visitsAll : List Node → List Visit
  | [] => []
  | n :: ns => n.visits ++ Node.visitsAll ns

def Node.visitsBranches : List (Expr × List Node) → List Visit
  | [] => []
  | (e, b) :: bs => e.visits ++ Node.visitsAll b ++ Node.visitsBranches bs

def Node.visitsCases : List (List Expr × List Node) → List Visit
  | [] => []
  | (es, b) :: cs => Expr.visitsAll es ++ Node.visitsAll b ++ Node.visitsCases cs

def Node.visitsArgs : List Arg → List Visit
  | [] => []
  | .value _ e :: as => e.visits ++ Node.visitsArgs as
  | .content _ _ b :: as => Node.visitsAll b ++ Node.visitsArgs as

end

namespace Template

def visits (t : Template) : List Visit :=
  t.params.flatMap (fun p => (p.default.map Expr.visits).getD []) ++
    t.state.flatMap (·.initial.visits) ++ Node.visitsAll t.body

def variableNames (t : Template) : List String :=
  t.visits.filterMap fun
    | .expr (.var v) => some v.name
    | _ => none

def rawTexts (t : Template) : List String :=
  t.visits.filterMap fun
    | .node (.text s) => some s
    | _ => none

end Template

end ResumableTemplates
