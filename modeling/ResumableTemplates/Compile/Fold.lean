import ResumableTemplates.Value.Operators

/-!
Constant folding: the value of an expression with no variable, template or element in it. One
whose evaluation fails has none, so that the error is met where the expression is used.
-/
namespace ResumableTemplates

def Literal.value : Literal → Value
  | null => .null
  | bool b => .bool b
  | int n => .int n
  | float x => .float x
  | str s => .str s

/-- The value that decides a binary operator without its right operand. -/
def BinaryOp.decidedBy? : BinaryOp → Value → Option Value
  | .and, v => if v.isTruthy then none else some (.bool false)
  | .or, v => if v.isTruthy then some (.bool true) else none
  | .orElse, v => if v.isNull then none else some v
  | _, _ => none

namespace Expr

mutual

def isConstant : Expr → Bool
  | literal _ => true
  | var _ | template _ | element .. => false
  | binary _ l r => l.isConstant && r.isConstant
  | unary _ e => e.isConstant
  | cond c t e => c.isConstant && t.isConstant && e.isConstant
  | list es => isConstantAll es
  | record fs => isConstantFields fs
  | field b _ _ => b.isConstant
  | index b k => b.isConstant && k.isConstant
  | builtin _ es => isConstantAll es

def isConstantAll : List Expr → Bool
  | [] => true
  | e :: es => e.isConstant && isConstantAll es

def isConstantFields : List (String × Expr) → Bool
  | [] => true
  | (_, e) :: fs => e.isConstant && isConstantFields fs

end

mutual

def constantValue? : Expr → Option Value
  | literal l => some l.value
  | binary op l r => do
    let a ← l.constantValue?
    match op.decidedBy? a with
    | some v => some v
    | none => (Value.binary op a (← r.constantValue?)).toOption
  | unary op e => do (Value.unary op (← e.constantValue?)).toOption
  | cond c t e => do if (← c.constantValue?).isTruthy then t.constantValue? else e.constantValue?
  | list es => do return .list (← constantValues? es)
  | record fs => do return .record (Record.ofList (← constantFields? fs))
  | field b n s => do ((← b.constantValue?).fieldOf n s).toOption
  | index b k => do
    let base ← b.constantValue?
    let key ← k.constantValue?
    (base.item key).toOption
  | builtin f es => do (Value.apply f (← constantValues? es)).toOption
  | var _ | template _ | element .. => none

def constantValues? : List Expr → Option (List Value)
  | [] => some []
  | e :: es => do
    let v ← e.constantValue?
    return v :: (← constantValues? es)

def constantFields? : List (String × Expr) → Option (List (String × Value))
  | [] => some []
  | (k, e) :: fs => do
    let v ← e.constantValue?
    return (k, v) :: (← constantFields? fs)

end

def fold? (e : Expr) : Option Value := if e.isConstant then e.constantValue? else none

end Expr

end ResumableTemplates
