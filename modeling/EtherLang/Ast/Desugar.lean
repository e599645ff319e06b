import EtherLang.Ast.Render
import EtherLang.Surface.Parser

/-!
# From surface trees to syntax trees

Numerals become numbers and arrows become calls: `x -> f(a, b)` is `f(x, a, b)`. The right side of
an arrow therefore has to be a call, or an arrow, which is one. Trees are gone through from the
left and children before parents, so of several bad arrows the first one in this order is reported.
-/

namespace EtherLang

open Ast (Program)

namespace Surface

/-- The report on a program that is nested too deeply for the levels of a host. The line in it is
idealised: a host whose levels give out inside a node may name the line of that node, and here the
first line of the program stands for all of these. -/
def tooDeep : ParseError :=
  ⟨.tooDeep, 1⟩

/-- The call that an arrow stands for. -/
def applyArrow (value target : Ast.Expr) (line : Nat) : Except ParseError Ast.Expr :=
  match target with
  | .call callee args _ => .ok (.call callee (value :: args) line)
  | target => .error ⟨.arrowTarget target.render, line⟩

mutual

/-- The syntax tree of an expression. -/
def Expr.desugar (depth : Depth) (e : Expr) : Except ParseError Ast.Expr :=
  match depth.down? with
  | none => .error tooDeep
  | some depth =>
    match e with
    | .integer digits line => .ok (.int (Text.ofAsciiDigits digits) line)
    | .boolean value line => .ok (.bool value line)
    | .ident name line => .ok (.ident name line)
    | .unary op operand line => do
      return .unary (.known op) (← operand.desugar depth) line
    | .binary op left right line => do
      let left ← left.desugar depth
      let right ← right.desugar depth
      return .binary (.known op) left right line
    | .function params body line => do
      return .function params (← body.desugar depth) line
    | .call callee args line => do
      let callee ← callee.desugar depth
      let args ← desugarList depth args
      return .call callee args line
    | .index array index line => do
      let array ← array.desugar depth
      let index ← index.desugar depth
      return .index array index line
    | .array elements line => do
      return .array (← desugarList depth elements) line
    | .arrow value target line => do
      let value ← value.desugar depth
      let target ← target.desugar depth
      applyArrow value target line
    | .cond condition consequence none line => do
      let condition ← condition.desugar depth
      let consequence ← consequence.desugar depth
      return .cond condition consequence none line
    | .cond condition consequence (some alternative) line => do
      let condition ← condition.desugar depth
      let consequence ← consequence.desugar depth
      let alternative ← alternative.desugar depth
      return .cond condition consequence (some alternative) line

/-- The syntax trees of expressions, from left to right. -/
def desugarList (depth : Depth) : List Expr → Except ParseError (List Ast.Expr)
  | [] => .ok []
  | first :: others => do
    let first ← first.desugar depth
    let others ← desugarList depth others
    return first :: others

/-- The syntax tree of a statement. -/
def Stmt.desugar (depth : Depth) : Stmt → Except ParseError Ast.Stmt
  | .var target value line => do return .var target (← value.desugar depth) line
  | .ret value line => do return .ret (← value.desugar depth) line
  | .expr value line => do return .expr (← value.desugar depth) line

/-- The syntax tree of a block. -/
def Block.desugar (depth : Depth) : Block → Except ParseError Ast.Block
  | .mk statements line => do return .mk (← desugarStatements depth statements) line

/-- The syntax trees of statements, one after the other. -/
def desugarStatements (depth : Depth) : List Stmt → Except ParseError (List Ast.Stmt)
  | [] => .ok []
  | first :: others => do
    let first ← first.desugar depth
    let others ← desugarStatements depth others
    return first :: others

end

end Surface

/-- The syntax tree of a program given by its surface tree. -/
def desugar (depth : Depth) (statements : List Surface.Stmt) : Except ParseError Program :=
  (Surface.desugarStatements depth statements).map Program.mk

/-- Reads a program. -/
def parse (depth : Depth) (source : String) : Except ParseFailure Program := do
  let statements ← Surface.parse depth source
  (desugar depth statements).mapError ParseFailure.rejected

end EtherLang
