import EtherLang.Token

/-!
# Operators

The operators of the language and the ways in which a token can continue an expression. Operators
of higher binding strength group first; operators of one strength group to the left.
-/

namespace EtherLang

/-- The operators with one operand. -/
inductive UnaryOp where
  | negate
  | not
  deriving DecidableEq, Repr

/-- The operators with two operands. -/
inductive BinaryOp where
  | add
  | sub
  | mul
  | div
  | equal
  | notEqual
  deriving DecidableEq, Repr

namespace UnaryOp

/-- How an operator is written. -/
def symbol : UnaryOp → String
  | negate => "-"
  | not => "!"

/-- The kind of token that an operator is read from. -/
def tokenKind : UnaryOp → TokenKind
  | negate => .minus
  | not => .bang

/-- The operator that is written in this way. -/
def ofSymbol? (symbol : String) : Option UnaryOp :=
  match symbol with
  | "-" => some negate
  | "!" => some not
  | _ => none

/-- Every operator is read back from the way it is written. -/
theorem ofSymbol?_symbol (op : UnaryOp) : ofSymbol? op.symbol = some op := by
  cases op <;> rfl

end UnaryOp

namespace BinaryOp

/-- How an operator is written. -/
def symbol : BinaryOp → String
  | add => "+"
  | sub => "-"
  | mul => "*"
  | div => "/"
  | equal => "=="
  | notEqual => "!="

/-- The kind of token that an operator is read from. -/
def tokenKind : BinaryOp → TokenKind
  | add => .plus
  | sub => .minus
  | mul => .star
  | div => .slash
  | equal => .equal
  | notEqual => .notEqual

/-- The operator that is written in this way. -/
def ofSymbol? (symbol : String) : Option BinaryOp :=
  match symbol with
  | "+" => some add
  | "-" => some sub
  | "*" => some mul
  | "/" => some div
  | "==" => some equal
  | "!=" => some notEqual
  | _ => none

/-- Every operator is read back from the way it is written. -/
theorem ofSymbol?_symbol (op : BinaryOp) : ofSymbol? op.symbol = some op := by
  cases op <;> rfl

end BinaryOp

/-- An operator in a tree: one of the language, or a spelling that is none of them. -/
inductive Spelled (α : Type) where
  | known (op : α)
  | unknown (symbol : String)
  deriving DecidableEq, Repr

/-- The operator with one operand that is written in this way, whatever it is. -/
def UnaryOp.spelled (symbol : String) : Spelled UnaryOp :=
  (ofSymbol? symbol).elim (.unknown symbol) .known

/-- The operator with two operands that is written in this way, whatever it is. -/
def BinaryOp.spelled (symbol : String) : Spelled BinaryOp :=
  (ofSymbol? symbol).elim (.unknown symbol) .known

/-- How an operator in a tree is written. -/
def Spelled.symbol {α : Type} (written : α → String) : Spelled α → String
  | known op => written op
  | unknown symbol => symbol

/-! How strongly a construct holds its operands together. -/

namespace Binding

/-- Weaker than every operator. -/
def lowest : Nat := 0

/-- The arrow `->`. -/
def arrow : Nat := 1

/-- The comparisons `==` and `!=`. -/
def equality : Nat := 2

/-- The operators `+` and `-`. -/
def sum : Nat := 3

/-- The operators `*` and `/`. -/
def product : Nat := 4

/-- The operators with one operand. -/
def unary : Nat := 5

/-- Calls and indexing. -/
def trailer : Nat := 6

end Binding

/-- How strongly an operator with two operands binds. -/
def BinaryOp.binding : BinaryOp → Nat
  | add | sub => Binding.sum
  | mul | div => Binding.product
  | equal | notEqual => Binding.equality

/-- What a token after a complete expression may make of it. -/
inductive Continuation where
  | call
  | index
  | arrow
  | binary (op : BinaryOp)
  deriving DecidableEq, Repr

/-- How strongly a continuation binds. -/
def Continuation.binding : Continuation → Nat
  | call | index => Binding.trailer
  | arrow => Binding.arrow
  | binary op => op.binding

/-- The continuation that a token opens, if it opens one. -/
def TokenKind.continuation? : TokenKind → Option Continuation
  | .leftParen => some .call
  | .leftBracket => some .index
  | .arrow => some .arrow
  | .plus => some (.binary .add)
  | .minus => some (.binary .sub)
  | .star => some (.binary .mul)
  | .slash => some (.binary .div)
  | .equal => some (.binary .equal)
  | .notEqual => some (.binary .notEqual)
  | _ => none

end EtherLang
