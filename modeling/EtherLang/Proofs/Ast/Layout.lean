import EtherLang.Ast.Desugar
import EtherLang.Proofs.Surface.Layout

/-!
# Syntax trees without lines

A tree without its lines is rendered as the tree is, and lowering a surface tree without lines gives
the syntax tree without lines, or fails with the same wording. So texts with the same tokens apart
from lines are read as programs that are the same without their lines.
-/

namespace EtherLang

namespace Ast

mutual

/-- An expression without its lines. -/
def Expr.eraseLines : Expr → Expr
  | .ident name _ => .ident name 0
  | .int value _ => .int value 0
  | .bool value _ => .bool value 0
  | .unary op operand _ => .unary op operand.eraseLines 0
  | .binary op left right _ => .binary op left.eraseLines right.eraseLines 0
  | .function params body _ => .function (params.map Ident.eraseLine) body.eraseLines 0
  | .call callee args _ => .call callee.eraseLines (eraseLinesList args) 0
  | .array elements _ => .array (eraseLinesList elements) 0
  | .index array index _ => .index array.eraseLines index.eraseLines 0
  | .cond condition consequence none _ =>
    .cond condition.eraseLines consequence.eraseLines none 0
  | .cond condition consequence (some alternative) _ =>
    .cond condition.eraseLines consequence.eraseLines (some alternative.eraseLines) 0
  | .misplaced statement => .misplaced statement.eraseLines
  | .foreign => .foreign

/-- Expressions without their lines. -/
def eraseLinesList : List Expr → List Expr
  | [] => []
  | first :: others => first.eraseLines :: eraseLinesList others

/-- A statement without its lines. -/
def Stmt.eraseLines : Stmt → Stmt
  | .var target value _ => .var target.eraseLine value.eraseLines 0
  | .ret value _ => .ret value.eraseLines 0
  | .expr value _ => .expr value.eraseLines 0
  | .block body => .block body.eraseLines
  | .misplaced expression => .misplaced expression.eraseLines
  | .program statements => .program (eraseLinesStatements statements)

/-- A block without its lines. -/
def Block.eraseLines : Block → Block
  | .mk statements _ => .mk (eraseLinesStatements statements) 0

/-- Statements without their lines. -/
def eraseLinesStatements : List Stmt → List Stmt
  | [] => []
  | first :: others => first.eraseLines :: eraseLinesStatements others

end

/-- A program without its lines. -/
def Program.eraseLines (p : Program) : Program :=
  ⟨eraseLinesStatements p.statements⟩

/-- An `if` without its lines. -/
theorem Expr.eraseLines_cond (condition : Expr) (consequence : Block) (alternative : Option Block)
    (line : Int) :
    (Expr.cond condition consequence alternative line).eraseLines =
      .cond condition.eraseLines consequence.eraseLines (alternative.map Block.eraseLines) 0 := by
  cases alternative <;> rfl

/-- Parameters without their lines are written as the parameters are. -/
theorem renderParams_eraseLine (params : List Ident) :
    renderParams (params.map Ident.eraseLine) = renderParams params := by
  rw [renderParams, renderParams, List.map_map]
  rfl

mutual

/-- An expression without its lines has the text of the expression. -/
theorem Expr.render_eraseLines (e : Expr) : e.eraseLines.render = e.render := by
  match e with
  | .ident .. | .int .. | .bool .. | .foreign => rfl
  | .unary op operand _ =>
    rw [Expr.eraseLines, Expr.render, Expr.render, operand.render_eraseLines]
  | .binary op left right _ =>
    rw [Expr.eraseLines, Expr.render, Expr.render, left.render_eraseLines,
      right.render_eraseLines]
  | .function params body _ =>
    rw [Expr.eraseLines, Expr.render, Expr.render, renderParams_eraseLine, body.render_eraseLines]
  | .call callee args _ =>
    rw [Expr.eraseLines, Expr.render, Expr.render, callee.render_eraseLines,
      renderList_eraseLines args]
  | .array elements _ =>
    rw [Expr.eraseLines, Expr.render, Expr.render, renderList_eraseLines elements]
  | .index array index _ =>
    rw [Expr.eraseLines, Expr.render, Expr.render, array.render_eraseLines,
      index.render_eraseLines]
  | .cond condition consequence none _ =>
    rw [Expr.eraseLines, Expr.render, Expr.render, condition.render_eraseLines,
      consequence.render_eraseLines]
  | .cond condition consequence (some alternative) _ =>
    rw [Expr.eraseLines, Expr.render, Expr.render, condition.render_eraseLines,
      consequence.render_eraseLines, alternative.render_eraseLines]
  | .misplaced statement =>
    rw [Expr.eraseLines, Expr.render, Expr.render, statement.render_eraseLines]
termination_by structural e

/-- Expressions without their lines have the text of the expressions. -/
theorem renderList_eraseLines (es : List Expr) :
    renderList (eraseLinesList es) = renderList es := by
  match es with
  | [] => rfl
  | [last] => exact last.render_eraseLines
  | first :: second :: others =>
    change first.eraseLines.render ++ ", " ++ renderList (eraseLinesList (second :: others)) =
      first.render ++ ", " ++ renderList (second :: others)
    rw [first.render_eraseLines, renderList_eraseLines (second :: others)]
termination_by structural es

/-- A statement without its lines has the text of the statement. -/
theorem Stmt.render_eraseLines (s : Stmt) : s.eraseLines.render = s.render := by
  match s with
  | .var target value _ =>
    rw [Stmt.eraseLines, Stmt.render, Stmt.render, value.render_eraseLines]
    rfl
  | .ret value _ => rw [Stmt.eraseLines, Stmt.render, Stmt.render, value.render_eraseLines]
  | .expr value _ => rw [Stmt.eraseLines, Stmt.render, Stmt.render, value.render_eraseLines]
  | .block body => rw [Stmt.eraseLines, Stmt.render, Stmt.render, body.render_eraseLines]
  | .misplaced expression =>
    rw [Stmt.eraseLines, Stmt.render, Stmt.render, expression.render_eraseLines]
  | .program statements =>
    rw [Stmt.eraseLines, Stmt.render, Stmt.render, renderStatements_eraseLines statements]
termination_by structural s

/-- A block without its lines has the text of the block. -/
theorem Block.render_eraseLines (b : Block) : b.eraseLines.render = b.render := by
  match b with
  | .mk statements _ =>
    rw [Block.eraseLines, Block.render, Block.render, renderStatements_eraseLines statements]
termination_by structural b

/-- Statements without their lines have the text of the statements. -/
theorem renderStatements_eraseLines (ss : List Stmt) :
    renderStatements (eraseLinesStatements ss) = renderStatements ss := by
  match ss with
  | [] => rfl
  | first :: others =>
    rw [eraseLinesStatements, renderStatements, renderStatements, first.render_eraseLines,
      renderStatements_eraseLines others]
termination_by structural ss

end

end Ast

namespace Surface

/-- Both trees can be lowered, to a tree and to that tree without lines, or both fail with the same
wording. -/
abbrev LowerAlike {α : Type} (f : α → α) : Except ParseError α → Except ParseError α → Prop :=
  ResultsAlike (fun e e' => e.message = e'.message) fun a b => b = f a

/-- An arrow without its lines. -/
theorem applyArrow_alike (value target : Ast.Expr) (line : Nat) :
    LowerAlike Ast.Expr.eraseLines (applyArrow value target line)
      (applyArrow value.eraseLines target.eraseLines 0) := by
  have hrender : (ParseError.Cause.arrowTarget target.render).message =
      (ParseError.Cause.arrowTarget target.eraseLines.render).message := by
    rw [target.render_eraseLines]
  cases target with
  | call callee args l => rfl
  | cond condition consequence alternative l =>
    rw [Ast.Expr.eraseLines_cond] at hrender ⊢
    exact hrender
  | _ => exact hrender

mutual

/-- Lowering an expression without lines. -/
theorem Expr.desugar_alike (e : Expr) (depth : Depth) :
    LowerAlike Ast.Expr.eraseLines (e.desugar depth) (e.eraseLines.desugar depth) := by
  match hdepth : depth.down? with
  | none =>
    rw [Expr.desugar.eq_def depth e, Expr.desugar.eq_def depth e.eraseLines, hdepth]
    rfl
  | some inner =>
    match e with
    | .integer .. | .boolean .. | .ident .. =>
      rw [Expr.eraseLines, Expr.desugar, Expr.desugar, hdepth]
      rfl
    | .unary op operand _ =>
      rw [Expr.eraseLines, Expr.desugar, Expr.desugar, hdepth]
      refine (operand.desugar_alike inner).bind ?_
      rintro operand _ rfl
      rfl
    | .binary op left right _ =>
      rw [Expr.eraseLines, Expr.desugar, Expr.desugar, hdepth]
      refine (left.desugar_alike inner).bind ?_
      rintro left _ rfl
      refine (right.desugar_alike inner).bind ?_
      rintro right _ rfl
      rfl
    | .function params body _ =>
      rw [Expr.eraseLines, Expr.desugar, Expr.desugar, hdepth]
      refine (body.desugar_alike inner).bind ?_
      rintro body _ rfl
      rfl
    | .call callee args _ =>
      rw [Expr.eraseLines, Expr.desugar, Expr.desugar, hdepth]
      refine (callee.desugar_alike inner).bind ?_
      rintro callee _ rfl
      refine (desugarList_alike args inner).bind ?_
      rintro args _ rfl
      rfl
    | .index array index _ =>
      rw [Expr.eraseLines, Expr.desugar, Expr.desugar, hdepth]
      refine (array.desugar_alike inner).bind ?_
      rintro array _ rfl
      refine (index.desugar_alike inner).bind ?_
      rintro index _ rfl
      rfl
    | .array elements _ =>
      rw [Expr.eraseLines, Expr.desugar, Expr.desugar, hdepth]
      refine (desugarList_alike elements inner).bind ?_
      rintro elements _ rfl
      rfl
    | .arrow value target line =>
      rw [Expr.eraseLines, Expr.desugar, Expr.desugar, hdepth]
      refine (value.desugar_alike inner).bind ?_
      rintro value _ rfl
      refine (target.desugar_alike inner).bind ?_
      rintro target _ rfl
      exact applyArrow_alike value target line
    | .cond condition consequence none _ =>
      rw [Expr.eraseLines, Expr.desugar, Expr.desugar, hdepth]
      refine (condition.desugar_alike inner).bind ?_
      rintro condition _ rfl
      refine (consequence.desugar_alike inner).bind ?_
      rintro consequence _ rfl
      rfl
    | .cond condition consequence (some alternative) _ =>
      rw [Expr.eraseLines, Expr.desugar, Expr.desugar, hdepth]
      refine (condition.desugar_alike inner).bind ?_
      rintro condition _ rfl
      refine (consequence.desugar_alike inner).bind ?_
      rintro consequence _ rfl
      refine (alternative.desugar_alike inner).bind ?_
      rintro alternative _ rfl
      rfl
termination_by structural e

/-- Lowering expressions without lines. -/
theorem desugarList_alike (es : List Expr) (depth : Depth) :
    LowerAlike Ast.eraseLinesList (desugarList depth es)
      (desugarList depth (eraseLinesList es)) := by
  match es with
  | [] => rfl
  | first :: others =>
    rw [eraseLinesList, desugarList, desugarList]
    refine (first.desugar_alike depth).bind ?_
    rintro first _ rfl
    refine (desugarList_alike others depth).bind ?_
    rintro others _ rfl
    rfl
termination_by structural es

/-- Lowering a statement without lines. -/
theorem Stmt.desugar_alike (s : Stmt) (depth : Depth) :
    LowerAlike Ast.Stmt.eraseLines (s.desugar depth) (s.eraseLines.desugar depth) := by
  match s with
  | .var target value _ =>
    refine (value.desugar_alike depth).bind ?_
    rintro value _ rfl
    rfl
  | .ret value _ | .expr value _ =>
    refine (value.desugar_alike depth).bind ?_
    rintro value _ rfl
    rfl
termination_by structural s

/-- Lowering a block without lines. -/
theorem Block.desugar_alike (b : Block) (depth : Depth) :
    LowerAlike Ast.Block.eraseLines (b.desugar depth) (b.eraseLines.desugar depth) := by
  match b with
  | .mk statements _ =>
    refine (desugarStatements_alike statements depth).bind ?_
    rintro statements _ rfl
    rfl
termination_by structural b

/-- Lowering statements without lines. -/
theorem desugarStatements_alike (ss : List Stmt) (depth : Depth) :
    LowerAlike Ast.eraseLinesStatements (desugarStatements depth ss)
      (desugarStatements depth (eraseLinesStatements ss)) := by
  match ss with
  | [] => rfl
  | first :: others =>
    rw [eraseLinesStatements, desugarStatements, desugarStatements]
    refine (first.desugar_alike depth).bind ?_
    rintro first _ rfl
    refine (desugarStatements_alike others depth).bind ?_
    rintro others _ rfl
    rfl
termination_by structural ss

end

end Surface

/-- Texts with the same tokens are programs that are the same without their lines, or are no
programs for causes of the same wording. -/
theorem SameTokens.parse {a b : String} (h : SameTokens a b) (depth : Depth) :
    Surface.Parser.ReadAlike (fun p q => p.eraseLines = q.eraseLines) (EtherLang.parse depth a)
      (EtherLang.parse depth b) := by
  refine (h.surface_parse depth).bind fun ss ss' hss => ?_
  have hlower := Surface.desugarStatements_alike ss depth
  have hlower' := Surface.desugarStatements_alike ss' depth
  rw [← hss] at hlower'
  have halike : ResultsAlike (fun e e' => e.message = e'.message)
      (fun p q => p.eraseLines = q.eraseLines) (desugar depth ss) (desugar depth ss') :=
    (hlower.of_common hlower').map fun _ _ => congrArg Ast.Program.mk
  exact halike.mapError fun _ _ => congrArg some

end EtherLang
