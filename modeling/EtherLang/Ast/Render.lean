import EtherLang.Ast

/-!
# Rendering syntax trees

Every tree has one canonical text. Operators and indexing are put in parentheses and everything
else is written bare; statements end in a semicolon and follow each other without a space. The text
of a tree that came from a program reads back as the same tree.
-/

namespace EtherLang.Ast

/-- The parameters of a function as they stand between its bars. -/
def renderParams (params : List Ident) : String :=
  String.intercalate ", " (params.map Ident.name)

mutual

/-- The canonical text of an expression. -/
def Expr.render : Expr → String
  | .ident name _ => name
  | .int value _ => toString value
  | .bool value _ => if value then "true" else "false"
  | .unary op operand _ => "(" ++ op.symbol UnaryOp.symbol ++ operand.render ++ ")"
  | .binary op left right _ =>
    "(" ++ left.render ++ " " ++ op.symbol BinaryOp.symbol ++ " " ++ right.render ++ ")"
  | .function params body _ => "|" ++ renderParams params ++ "| " ++ body.render
  | .call callee args _ => callee.render ++ "(" ++ renderList args ++ ")"
  | .array elements _ => "[" ++ renderList elements ++ "]"
  | .index array index _ => "(" ++ array.render ++ "[" ++ index.render ++ "])"
  | .cond condition consequence none _ => "if " ++ condition.render ++ " " ++ consequence.render
  | .cond condition consequence (some alternative) _ =>
    "if " ++ condition.render ++ " " ++ consequence.render ++ " else " ++ alternative.render
  | .misplaced statement => statement.render
  | .foreign => "<object>"

/-- The canonical texts of expressions with commas between them. -/
def renderList : List Expr → String
  | [] => ""
  | [last] => last.render
  | first :: others => first.render ++ ", " ++ renderList others

/-- The canonical text of a statement. -/
def Stmt.render : Stmt → String
  | .var target value _ => "var " ++ target.name ++ " = " ++ value.render ++ ";"
  | .ret value _ => "return " ++ value.render ++ ";"
  | .expr value _ => value.render ++ ";"
  | .block body => body.render
  | .misplaced expression => expression.render
  | .program statements => renderStatements statements

/-- The canonical text of a block. -/
def Block.render : Block → String
  | .mk statements _ => "\x7b" ++ renderStatements statements ++ "\x7d"

/-- The canonical texts of statements, one after the other. -/
def renderStatements : List Stmt → String
  | [] => ""
  | first :: others => first.render ++ renderStatements others

end

/-- The canonical text of a program. -/
def Program.render (p : Program) : String :=
  renderStatements p.statements

/-- The canonical texts of the statements of a program, one statement a line. -/
def Program.listing (p : Program) : String :=
  String.join (p.statements.map fun s => s.render ++ "\n")

/-- The canonical text of a node. -/
def Node.render : Node → String
  | .program p => p.render
  | .stmt s => s.render
  | .expr e => e.render

end EtherLang.Ast
