/-!
Expressions of the template language. Every variable reference says what it refers to, so a
compiler never guesses whether a name is a parameter or a loop variable.
-/
namespace ResumableTemplates

inductive Literal
  | null
  | bool (b : Bool)
  | int (n : Int64)
  | float (x : Float)
  | str (s : String)

inductive BinaryOp
  | add | sub | mul | div | mod
  | eq | ne | lt | le | gt | ge
  | and | or
  | orElse
deriving DecidableEq

inductive UnaryOp
  | neg | not
deriving DecidableEq

inductive Builtin
  | length | isNonnull | str
deriving DecidableEq

inductive VarRef
  | param (name : String)
  | state (name : String)
  | bound (name : String)
  | injected (name : String)
deriving DecidableEq

inductive Expr
  | literal (l : Literal)
  | var (v : VarRef)
  | binary (op : BinaryOp) (left right : Expr)
  | unary (op : UnaryOp) (operand : Expr)
  | cond (test yes no : Expr)
  | list (items : List Expr)
  | record (fields : List (String × Expr))
  | field (base : Expr) (name : String) (nullSafe : Bool)
  | index (base key : Expr)
  | builtin (f : Builtin) (args : List Expr)
  | template (name : String)
  | element (id : UInt64) (name : String) (table : Option String)

namespace BinaryOp

def symbol : BinaryOp → String
  | add => "+"
  | sub => "-"
  | mul => "*"
  | div => "/"
  | mod => "%"
  | eq => "=="
  | ne => "!="
  | lt => "<"
  | le => "<="
  | gt => ">"
  | ge => ">="
  | and => "and"
  | or => "or"
  | orElse => "?:"

def all : List BinaryOp := [add, sub, mul, div, mod, eq, ne, lt, le, gt, ge, and, or, orElse]

def ofSymbol? (s : String) : Option BinaryOp := all.find? (·.symbol == s)

def isShortCircuit : BinaryOp → Bool
  | and | or | orElse => true
  | _ => false

end BinaryOp

def UnaryOp.symbol : UnaryOp → String
  | neg => "-"
  | not => "not"

def UnaryOp.all : List UnaryOp := [neg, not]

def Builtin.name : Builtin → String
  | length => "length"
  | isNonnull => "isNonnull"
  | str => "str"

def Builtin.all : List Builtin := [length, isNonnull, str]

def VarRef.name : VarRef → String
  | param n | state n | bound n | injected n => n

end ResumableTemplates
