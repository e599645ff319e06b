import EtherLang.Surface

/-!
# Syntax trees

What a program means to its evaluation: arrows are calls and numerals are numbers. A tree need not
come from a text, so it may hold what no text gives: an operator of another language, a node where
a node of its family does not belong, a foreign object, or a line that is no number of a line.
Evaluation reports misplaced nodes where it meets them.
-/

namespace EtherLang.Ast

mutual

/-- What may stand where an expression belongs. -/
inductive Expr where
  | ident (name : String) (line : Int)
  | int (value : Int) (line : Int)
  | bool (value : Bool) (line : Int)
  | unary (op : Spelled UnaryOp) (operand : Expr) (line : Int)
  | binary (op : Spelled BinaryOp) (left right : Expr) (line : Int)
  | function (params : List Ident) (body : Block) (line : Int)
  | call (callee : Expr) (args : List Expr) (line : Int)
  | array (elements : List Expr) (line : Int)
  | index (array index : Expr) (line : Int)
  | cond (condition : Expr) (consequence : Block) (alternative : Option Block) (line : Int)
  /-- A statement where an expression belongs. -/
  | misplaced (statement : Stmt)
  /-- An object that is no node of a tree. -/
  | foreign
  deriving Repr

/-- What may stand where a statement belongs. -/
inductive Stmt where
  | var (target : Ident) (value : Expr) (line : Int)
  | ret (value : Expr) (line : Int)
  | expr (value : Expr) (line : Int)
  | block (body : Block)
  /-- An expression where a statement belongs. -/
  | misplaced (expression : Expr)
  /-- A whole program where a statement belongs. -/
  | program (statements : List Stmt)
  deriving Repr

/-- Statements between braces. -/
inductive Block where
  | mk (statements : List Stmt) (line : Int)
  deriving Repr

end

/-- A whole program. -/
structure Program where
  statements : List Stmt
  deriving Repr

/-- Anything that can be evaluated by itself. -/
inductive Node where
  | program (program : Program)
  | stmt (statement : Stmt)
  | expr (expression : Expr)
  deriving Repr

/-- The statements of a block. -/
def Block.statements : Block → List Stmt
  | .mk statements _ => statements

/-- The line of a block. -/
def Block.line : Block → Int
  | .mk _ line => line

mutual

/-- The line an expression is reported for; what has no line of its own is on line zero. -/
def Expr.line : Expr → Int
  | .ident _ line | .int _ line | .bool _ line => line
  | .unary _ _ line | .binary _ _ _ line => line
  | .function _ _ line | .call _ _ line => line
  | .array _ line | .index _ _ line => line
  | .cond _ _ _ line => line
  | .misplaced statement => statement.line
  | .foreign => 0

/-- The line a statement is reported for. A program begins where its first statement begins. -/
def Stmt.line : Stmt → Int
  | .var _ _ line | .ret _ line | .expr _ line => line
  | .block body => body.line
  | .misplaced expression => expression.line
  | .program statements => firstLine statements

/-- The line on which a list of statements begins, which is the first line if it is empty. -/
def firstLine : List Stmt → Int
  | [] => 1
  | first :: _ => first.line

end

/-- The line a program begins on. -/
def Program.line (p : Program) : Int :=
  firstLine p.statements

/-- The line a node is reported for. -/
def Node.line : Node → Int
  | .program p => p.line
  | .stmt s => s.line
  | .expr e => e.line

mutual

/-- The name of the family member that stands in an expression's place. -/
def Expr.familyName : Expr → String
  | .ident .. => "Identifier"
  | .int .. => "IntegerLiteral"
  | .bool .. => "BooleanLiteral"
  | .unary .. => "PrefixExpression"
  | .binary .. => "InfixExpression"
  | .function .. => "FunctionLiteral"
  | .call .. => "FunctionCall"
  | .array .. => "ArrayLiteral"
  | .index .. => "IndexExpression"
  | .cond .. => "IfExpression"
  | .misplaced statement => statement.familyName
  | .foreign => "object"

/-- The name of the family member that stands in a statement's place. -/
def Stmt.familyName : Stmt → String
  | .var .. => "VarStatement"
  | .ret .. => "ReturnStatement"
  | .expr .. => "ExpressionStatement"
  | .block .. => "BlockStatement"
  | .misplaced expression => expression.familyName
  | .program .. => "Program"

end

end EtherLang.Ast
