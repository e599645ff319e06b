import EtherLang.Ast.Render
import EtherLang.Ast.Same

/-!
# Trees that agree up to lines

Lines are not written, so trees that differ in nothing but their lines have the same canonical text.
-/

namespace EtherLang.Ast

/-- Parameters with the same names are written alike. -/
theorem renderParams_of_same {params params' : List Ident} (h : sameNames params params' = true) :
    renderParams params = renderParams params' := by
  rw [renderParams, renderParams, eq_of_beq h]

mutual

/-- Expressions that agree up to lines have the same canonical text. -/
theorem Expr.render_of_same (e e' : Expr) (h : e.same e' = true) : e.render = e'.render := by
  match e with
  | .ident .. | .int .. | .bool .. =>
    cases e' <;> simp only [Expr.same, beq_iff_eq, Bool.false_eq_true] at h
    simp only [Expr.render, h]
  | .unary _ operand _ =>
    cases e' <;> simp only [Expr.same, Bool.and_eq_true, beq_iff_eq, Bool.false_eq_true] at h
    simp only [Expr.render, h.1, operand.render_of_same _ h.2]
  | .binary _ left right _ =>
    cases e' <;> simp only [Expr.same, Bool.and_eq_true, beq_iff_eq, Bool.false_eq_true] at h
    simp only [Expr.render, h.1.1, left.render_of_same _ h.1.2, right.render_of_same _ h.2]
  | .function params body _ =>
    cases e' <;> simp only [Expr.same, Bool.and_eq_true, Bool.false_eq_true] at h
    simp only [Expr.render, renderParams_of_same h.1, body.render_of_same _ h.2]
  | .call callee args _ =>
    cases e' <;> simp only [Expr.same, Bool.and_eq_true, Bool.false_eq_true] at h
    simp only [Expr.render, callee.render_of_same _ h.1, renderList_of_same args _ h.2]
  | .array elements _ =>
    cases e' <;> simp only [Expr.same, Bool.false_eq_true] at h
    simp only [Expr.render, renderList_of_same elements _ h]
  | .index array index _ =>
    cases e' <;> simp only [Expr.same, Bool.and_eq_true, Bool.false_eq_true] at h
    simp only [Expr.render, array.render_of_same _ h.1, index.render_of_same _ h.2]
  | .cond condition consequence none _ =>
    cases e' with
    | cond condition' consequence' alternative' _ =>
      cases alternative' <;> simp only [Expr.same, Bool.and_eq_true, Bool.false_eq_true] at h
      simp only [Expr.render, condition.render_of_same _ h.1, consequence.render_of_same _ h.2]
    | _ => simp only [Expr.same, Bool.false_eq_true] at h
  | .cond condition consequence (some alternative) _ =>
    cases e' with
    | cond condition' consequence' alternative' _ =>
      cases alternative' <;> simp only [Expr.same, Bool.and_eq_true, Bool.false_eq_true] at h
      simp only [Expr.render, condition.render_of_same _ h.1.1, consequence.render_of_same _ h.1.2,
        alternative.render_of_same _ h.2]
    | _ => simp only [Expr.same, Bool.false_eq_true] at h
  | .misplaced statement =>
    cases e' <;> simp only [Expr.same, Bool.false_eq_true] at h
    simp only [Expr.render, statement.render_of_same _ h]
  | .foreign => simp only [Expr.same, Bool.false_eq_true] at h
termination_by structural e

/-- Expressions that agree up to lines have the same canonical texts. -/
theorem renderList_of_same (es es' : List Expr) (h : sameList es es' = true) :
    renderList es = renderList es' := by
  match es, es', h with
  | [], [], _ => rfl
  | [last], [last'], h =>
    simp only [sameList, Bool.and_true] at h
    exact last.render_of_same last' h
  | first :: second :: others, first' :: second' :: others', h =>
    rw [sameList, Bool.and_eq_true] at h
    change first.render ++ ", " ++ renderList (second :: others) =
      first'.render ++ ", " ++ renderList (second' :: others')
    rw [first.render_of_same first' h.1, renderList_of_same (second :: others) _ h.2]
  | [], _ :: _, h | _ :: _, [], h => simp only [sameList, Bool.false_eq_true] at h
  | [_], _ :: _ :: _, h | _ :: _ :: _, [_], h => simp [sameList] at h
termination_by structural es

/-- Statements that agree up to lines have the same canonical text. -/
theorem Stmt.render_of_same (s s' : Stmt) (h : s.same s' = true) : s.render = s'.render := by
  match s with
  | .var target value _ =>
    cases s' <;> simp only [Stmt.same, Bool.and_eq_true, beq_iff_eq, Bool.false_eq_true] at h
    simp only [Stmt.render, h.1, value.render_of_same _ h.2]
  | .ret value _ | .expr value _ =>
    cases s' <;> simp only [Stmt.same, Bool.false_eq_true] at h
    simp only [Stmt.render, value.render_of_same _ h]
  | .block body =>
    cases s' <;> simp only [Stmt.same, Bool.false_eq_true] at h
    simp only [Stmt.render, body.render_of_same _ h]
  | .misplaced expression =>
    cases s' <;> simp only [Stmt.same, Bool.false_eq_true] at h
    simp only [Stmt.render, expression.render_of_same _ h]
  | .program statements =>
    cases s' <;> simp only [Stmt.same, Bool.false_eq_true] at h
    simp only [Stmt.render, renderStatements_of_same statements _ h]
termination_by structural s

/-- Blocks that agree up to lines have the same canonical text. -/
theorem Block.render_of_same (b b' : Block) (h : b.same b' = true) : b.render = b'.render := by
  match b, b' with
  | .mk statements _, .mk statements' _ =>
    rw [Block.same] at h
    rw [Block.render, Block.render, renderStatements_of_same statements statements' h]
termination_by structural b

/-- Statements that agree up to lines have the same canonical texts. -/
theorem renderStatements_of_same (ss ss' : List Stmt) (h : sameStatements ss ss' = true) :
    renderStatements ss = renderStatements ss' := by
  match ss, ss', h with
  | [], [], _ => rfl
  | first :: others, first' :: others', h =>
    rw [sameStatements, Bool.and_eq_true] at h
    rw [renderStatements, renderStatements, first.render_of_same first' h.1,
      renderStatements_of_same others others' h.2]
  | [], _ :: _, h | _ :: _, [], h => simp only [sameStatements, Bool.false_eq_true] at h
termination_by structural ss

end

end EtherLang.Ast
