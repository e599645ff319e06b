import EtherLang.Ast

/-!
# Equality up to lines

Two trees are the same when they differ at most in the lines of their nodes. A foreign object is
the same as nothing, not even as another foreign object.
-/

namespace EtherLang.Ast

/-- Whether two lists of names agree. -/
def sameNames (a b : List Ident) : Bool :=
  a.map Ident.name == b.map Ident.name

mutual

/-- Whether two expressions agree up to lines. -/
def Expr.same : Expr → Expr → Bool
  | .ident name _, .ident name' _ => name == name'
  | .int value _, .int value' _ => value == value'
  | .bool value _, .bool value' _ => value == value'
  | .unary op operand _, .unary op' operand' _ => op == op' && operand.same operand'
  | .binary op left right _, .binary op' left' right' _ =>
    op == op' && left.same left' && right.same right'
  | .function params body _, .function params' body' _ =>
    sameNames params params' && body.same body'
  | .call callee args _, .call callee' args' _ => callee.same callee' && sameList args args'
  | .array elements _, .array elements' _ => sameList elements elements'
  | .index array index _, .index array' index' _ => array.same array' && index.same index'
  | .cond condition consequence none _, .cond condition' consequence' none _ =>
    condition.same condition' && consequence.same consequence'
  | .cond condition consequence (some alternative) _,
      .cond condition' consequence' (some alternative') _ =>
    condition.same condition' && consequence.same consequence' && alternative.same alternative'
  | .misplaced statement, .misplaced statement' => statement.same statement'
  | _, _ => false

/-- Whether two lists of expressions agree up to lines. -/
def sameList : List Expr → List Expr → Bool
  | [], [] => true
  | e :: es, e' :: es' => e.same e' && sameList es es'
  | _, _ => false

/-- Whether two statements agree up to lines. -/
def Stmt.same : Stmt → Stmt → Bool
  | .var target value _, .var target' value' _ => target.name == target'.name && value.same value'
  | .ret value _, .ret value' _ => value.same value'
  | .expr value _, .expr value' _ => value.same value'
  | .block body, .block body' => body.same body'
  | .misplaced expression, .misplaced expression' => expression.same expression'
  | .program statements, .program statements' => sameStatements statements statements'
  | _, _ => false

/-- Whether two blocks agree up to lines. -/
def Block.same : Block → Block → Bool
  | .mk statements _, .mk statements' _ => sameStatements statements statements'

/-- Whether two lists of statements agree up to lines. -/
def sameStatements : List Stmt → List Stmt → Bool
  | [], [] => true
  | s :: ss, s' :: ss' => s.same s' && sameStatements ss ss'
  | _, _ => false

end

/-- Whether two programs agree up to lines. -/
def Program.same (p q : Program) : Bool :=
  sameStatements p.statements q.statements

end EtherLang.Ast
