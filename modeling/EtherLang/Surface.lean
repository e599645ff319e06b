import EtherLang.Operator

/-!
# Surface trees

What a program looks like as it is written: arrows are still there, numerals keep their digits and
parentheses have done their work. Every construct keeps the line of the token that makes it: the
operator, the opening bracket or the keyword.
-/

namespace EtherLang

/-- A name at a place in a program. -/
structure Ident where
  name : String
  line : Nat
  deriving DecidableEq, Repr

namespace Surface

mutual

/-- The expressions as they are written. -/
inductive Expr where
  | integer (digits : String) (line : Nat)
  | boolean (value : Bool) (line : Nat)
  | ident (name : String) (line : Nat)
  | unary (op : UnaryOp) (operand : Expr) (line : Nat)
  | binary (op : BinaryOp) (left right : Expr) (line : Nat)
  | function (params : List Ident) (body : Block) (line : Nat)
  | call (callee : Expr) (args : List Expr) (line : Nat)
  | index (array index : Expr) (line : Nat)
  | array (elements : List Expr) (line : Nat)
  | arrow (value target : Expr) (line : Nat)
  | cond (condition : Expr) (consequence : Block) (alternative : Option Block) (line : Nat)
  deriving Repr

/-- The statements as they are written. -/
inductive Stmt where
  | var (target : Ident) (value : Expr) (line : Nat)
  | ret (value : Expr) (line : Nat)
  | expr (value : Expr) (line : Nat)
  deriving Repr

/-- The statements between a pair of braces. -/
inductive Block where
  | mk (statements : List Stmt) (line : Nat)
  deriving Repr

end

/-- Whether an expression is an `if`, which ends in a brace and needs no semicolon after it. -/
def Expr.isCond : Expr → Bool
  | .cond .. => true
  | _ => false

end Surface

end EtherLang
