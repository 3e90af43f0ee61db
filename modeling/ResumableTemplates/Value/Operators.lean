import ResumableTemplates.Failure
import ResumableTemplates.Tree.Expr
import ResumableTemplates.Value.Equality
import ResumableTemplates.Value.Record

/-!
The operators on values, as they are applied both at compile time and at render time. Operands are
already forced. Integer arithmetic is exact or fails; mixed arithmetic is done on floats.
-/
namespace ResumableTemplates

def int64Of? (n : Int) : Option Int64 :=
  if Int64.minValue.toInt ≤ n ∧ n ≤ Int64.maxValue.toInt then some (Int64.ofInt n) else none

namespace Value

def ofExact (op : String) (n : Int) : Except DataError Value :=
  match int64Of? n with
  | some n => .ok (.int n)
  | none => .error (.overflow op)

def typeMismatch (op : BinaryOp) (a b : Value) : DataError :=
  .operandTypes op.symbol a.typeName b.typeName

def onFloats (op : BinaryOp) (f : Float → Float → Float) (a b : Value) : Except DataError Value :=
  match a.asFloat?, b.asFloat? with
  | some x, some y => .ok (.float (f x y))
  | _, _ => .error (typeMismatch op a b)

def arithmetic (op : BinaryOp) (onInts : Int → Int → Int) (f : Float → Float → Float) :
    Value → Value → Except DataError Value
  | .int a, .int b => ofExact op.symbol (onInts a.toInt b.toInt)
  | a, b => onFloats op f a b

def add (a b : Value) : Except DataError Value :=
  if a.asText?.isSome || b.asText?.isSome then .ok (.str (a.display ++ b.display))
  else arithmetic .add (· + ·) (· + ·) a b

/-- The remainder with the sign of the dividend. The quotient has to be an integer too. -/
def modulo : Value → Value → Except DataError Value
  | .int a, .int b =>
    if b = 0 then .error .moduloByZero
    else match int64Of? (a.toInt.tdiv b.toInt) with
      | some _ => ofExact BinaryOp.mod.symbol (a.toInt.tmod b.toInt)
      | none => .error (.overflow BinaryOp.mod.symbol)
  | a, b => onFloats .mod floatRemainder a b

/-- The order of two integers, of two numbers as floats, or of two texts by their characters. NaN
has no place in it. -/
def compare? : Value → Value → Option Ordering
  | .int a, .int b => some (compare a.toInt b.toInt)
  | a, b =>
    match a.asFloat?, b.asFloat? with
    | some x, some y =>
      if x < y then some .lt else if x == y then some .eq else if y < x then some .gt else none
    | _, _ =>
      match a.asText?, b.asText? with
      | some s, some t => some (compareOfLessAndEq s t)
      | _, _ => none

def comparison (op : BinaryOp) (holds : Ordering → Bool) (a b : Value) : Except DataError Value :=
  match compare? a b with
  | some o => .ok (.bool (holds o))
  | none => .error (typeMismatch op a b)

def binary : BinaryOp → Value → Value → Except DataError Value
  | .add, a, b => add a b
  | .sub, a, b => arithmetic .sub (· - ·) (· - ·) a b
  | .mul, a, b => arithmetic .mul (· * ·) (· * ·) a b
  | .div, a, b => onFloats .div (· / ·) a b
  | .mod, a, b => modulo a b
  | .eq, a, b => .ok (.bool (a.looseEq b))
  | .ne, a, b => .ok (.bool !(a.looseEq b))
  | .lt, a, b => comparison .lt (·.isLT) a b
  | .le, a, b => comparison .le (·.isLE) a b
  | .gt, a, b => comparison .gt (·.isGT) a b
  | .ge, a, b => comparison .ge (·.isGE) a b
  | .and, a, b => .ok (.bool (a.isTruthy && b.isTruthy))
  | .or, a, b => .ok (.bool (a.isTruthy || b.isTruthy))
  | .orElse, a, b => .ok (if a.isNull then b else a)

def unary : UnaryOp → Value → Except DataError Value
  | .not, a => .ok (.bool !a.isTruthy)
  | .neg, .int n => ofExact UnaryOp.neg.symbol (-n.toInt)
  | .neg, .float x => .ok (.float (-x))
  | .neg, a => .error (.operandType UnaryOp.neg.symbol a.typeName)

def fieldOf (base : Value) (name : String) (nullSafe : Bool) : Except DataError Value :=
  match base with
  | .record r => .ok (Record.read r name)
  | .null => if nullSafe then .ok .null else .error (.noFields name "null")
  | v => .error (.noFields name v.typeName)

def item : Value → Value → Except DataError Value
  | .list vs, .int n => .ok (if n < 0 then .null else (vs[n.toInt.toNat]?).getD .null)
  | .record r, key =>
    match key.asText? with
    | some k => .ok (Record.read r k)
    | none => .error (.notIndexable "record" key.typeName)
  | v, key => .error (.notIndexable v.typeName key.typeName)

def length : Value → Except DataError Value
  | .list vs => ofExact Builtin.length.name vs.length
  | .record r => ofExact Builtin.length.name (List.length r)
  | v =>
    match v.asText? with
    | some s => ofExact Builtin.length.name s.length
    | none => .error (.argumentType Builtin.length.name v.typeName)

def apply (f : Builtin) : List Value → Except DataError Value
  | [v] =>
    match f with
    | .length => v.length
    | .isNonnull => .ok (.bool !v.isNull)
    | .str => .ok (.str v.display)
  | vs => .error (.argumentCount f.name vs.length)

end Value

end ResumableTemplates
