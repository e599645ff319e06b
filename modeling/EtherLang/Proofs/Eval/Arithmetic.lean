import EtherLang.Proofs.Ast.Agreement
import EtherLang.Proofs.Ast.Arrows
import EtherLang.Proofs.Eval.Failing
import EtherLang.Proofs.Surface.Levels
import EtherLang.Session

/-!
# Exact values of integer expressions

Sums, differences, products and negations of literals and of variables that are bound to integers
have an exact value, computed over all integers. Evaluation folds the result of every operation into
the range of the language. As folding respects these operations, it does not matter on the way: what
such an expression evaluates to is its exact value, folded once. This holds for the expression as it
is read from its canonical text.
-/

namespace EtherLang

namespace Integer

/-- Folding the terms of a sum does not change the folded sum. -/
theorem wrap_add (a b : Int) : wrap (wrap a + wrap b) = wrap (a + b) :=
  (Int.add_bmod a b modulus).symm

/-- Folding the terms of a difference does not change the folded difference. -/
theorem wrap_sub (a b : Int) : wrap (wrap a - wrap b) = wrap (a - b) :=
  (Int.sub_bmod a b modulus).symm

/-- Folding the factors of a product does not change the folded product. -/
theorem wrap_mul (a b : Int) : wrap (wrap a * wrap b) = wrap (a * b) :=
  (Int.mul_bmod a b modulus).symm

/-- Folding a number does not change its folded negation. -/
theorem wrap_neg (n : Int) : wrap (-wrap n) = wrap (-n) :=
  Int.bmod_neg_bmod

end Integer

/-- The operation on all integers that an operator stands for, if that respects congruence. -/
def BinaryOp.overIntegers? : BinaryOp → Option (Int → Int → Int)
  | .add => some (· + ·)
  | .sub => some (· - ·)
  | .mul => some (· * ·)
  | .div | .equal | .notEqual => none

/-- An operator gives the folded exact result also for folded operands. -/
theorem BinaryOp.onIntegers_wrap {op : BinaryOp} {f : Int → Int → Int}
    (hop : op.overIntegers? = some f) (a b : Int) :
    op.onIntegers (Integer.wrap a) (Integer.wrap b) = .ok (.int (Integer.wrap (f a b))) := by
  cases op <;> simp only [overIntegers?, Option.some.injEq, reduceCtorEq] at hop <;> subst hop
  · rw [onIntegers, Integer.wrap_add]
  · rw [onIntegers, Integer.wrap_sub]
  · rw [onIntegers, Integer.wrap_mul]

namespace Ast.Expr

/-- The expression is made of literals and of names that are bound to integers of the language as
seen from the frame, with `+`, `-`, `*` and the sign, and the number is its value over all
integers. -/
inductive HasExact (store : Store) (frame : FrameId) : Expr → Int → Prop
  | int {n : Int} (line : Int) : 0 ≤ n → n ≤ Integer.maxValue →
    HasExact store frame (.int n line) n
  | ident {name : String} {n : Int} (line : Int) : isName name = true →
    store.get? name frame = some (.int n) → Integer.minValue ≤ n → n ≤ Integer.maxValue →
    HasExact store frame (.ident name line) n
  | negate {operand : Expr} {n : Int} (line : Int) : HasExact store frame operand n →
    HasExact store frame (.unary (.known .negate) operand line) (-n)
  | binary {op : BinaryOp} {f : Int → Int → Int} {left right : Expr} {a b : Int} (line : Int) :
    op.overIntegers? = some f → HasExact store frame left a → HasExact store frame right b →
    HasExact store frame (.binary (.known op) left right line) (f a b)

/-- A program is the same as one expression only if it is an expression that is the same. -/
theorem exists_eq_of_same {e : Expr} {line : Int} {q : Program}
    (h : Program.same ⟨[.expr e line]⟩ q = true) :
    ∃ e' line', q = ⟨[.expr e' line']⟩ ∧ e.same e' = true := by
  obtain ⟨ss⟩ := q
  match ss with
  | [.expr e' line'] =>
    rw [Program.same, sameStatements, sameStatements, Bool.and_true, Stmt.same] at h
    exact ⟨e', line', rfl, h⟩
  | [] | [.var ..] | [.ret ..] | [.block _] | [.misplaced _] | [.program _] =>
    simp [Program.same, sameStatements, Stmt.same] at h
  | _ :: _ :: _ => simp [Program.same, sameStatements] at h

namespace HasExact

variable {store : Store} {frame : FrameId} {e : Expr} {n : Int}

/-- Such an expression can be written down. -/
theorem wellFormed (h : e.HasExact store frame n) : e.wellFormed = true := by
  induction h with
  | int line lower upper =>
    exact Bool.and_eq_true_iff.mpr ⟨decide_eq_true lower, decide_eq_true upper⟩
  | ident line hname => exact hname
  | negate line _ ih => exact ih
  | binary line _ _ _ ihleft ihright => exact Bool.and_eq_true_iff.mpr ⟨ihleft, ihright⟩

/-- The exact value does not depend on lines. -/
theorem of_same (h : e.HasExact store frame n) {e' : Expr} (hsame : e.same e' = true) :
    e'.HasExact store frame n := by
  induction h generalizing e' with
  | int line lower upper =>
    cases e' <;> simp only [same, beq_iff_eq, Bool.false_eq_true] at hsame
    exact hsame ▸ .int _ lower upper
  | ident line hname hbound lower upper =>
    cases e' <;> simp only [same, beq_iff_eq, Bool.false_eq_true] at hsame
    exact hsame ▸ .ident _ hname hbound lower upper
  | negate line _ ih =>
    cases e' <;> simp only [same, Bool.and_eq_true, beq_iff_eq, Bool.false_eq_true] at hsame
    exact hsame.1 ▸ .negate _ (ih hsame.2)
  | binary line hop _ _ ihleft ihright =>
    cases e' <;> simp only [same, Bool.and_eq_true, beq_iff_eq, Bool.false_eq_true] at hsame
    exact hsame.1.1 ▸ .binary _ hop (ihleft hsame.1.2) (ihright hsame.2)

/-- The text of such an expression is not empty. -/
theorem length_render_pos (h : e.HasExact store frame n) : 0 < e.render.length := by
  obtain ⟨c, cs, htext, -⟩ := e.exists_render_head h.wellFormed
  rw [← String.length_toList, htext]
  exact Nat.succ_pos _

section Evaluation

open Eval

variable {m : Machine} (table : BuiltinTable) {depth : Nat}

/-- Such an expression evaluates to its folded exact value and changes nothing, as long as there are
as many levels as its text has characters. -/
theorem runIn_expr (h : e.HasExact m.store frame n) (hdepth : e.render.length ≤ depth + 1) :
    runIn m (expr table (depth + 1) frame e) = (.ok (.int (Integer.wrap n)), m) := by
  induction h generalizing depth with
  | int line lower upper =>
    rw [expr.eq_def, Integer.wrap_eq_self (Int.le_trans (by decide) lower) upper]
    exact runIn_placedAt_ok (runIn_pure m _) _
  | @ident name n line hname hbound lower upper =>
    have hvalue : runIn m (valueOf? name frame) = (.ok (some (.int n)), m) := by
      rw [runIn_valueOf?, hbound]
    rw [expr.eq_def, Integer.wrap_eq_self lower upper]
    refine runIn_placedAt_ok ?_ _
    exact runIn_bind_ok hvalue _
  | @negate operand n line _ ih =>
    -- An operator adds its parentheses to the text, so there is another level for its operand.
    have htext : operand.render.length + 2 ≤ depth + 1 := by
      simp only [render, String.length_append] at hdepth
      have hparens : "(".length = 1 ∧ ")".length = 1 := ⟨rfl, rfl⟩
      omega
    obtain ⟨depth, rfl⟩ := Nat.exists_eq_add_of_le' (show 1 ≤ depth by omega)
    have hoperand := ih (show operand.render.length ≤ depth + 1 by omega)
    rw [expr.eq_def]
    refine runIn_placedAt_ok ?_ _
    rw [runIn_bind_ok hoperand, runIn_ofResult, Value.unary, Integer.wrap_neg]
    rfl
  | @binary op f left right a b line hop _ _ ihleft ihright =>
    have htext : left.render.length + right.render.length + 2 ≤ depth + 1 := by
      simp only [render, String.length_append] at hdepth
      have hparens : "(".length = 1 ∧ ")".length = 1 := ⟨rfl, rfl⟩
      omega
    obtain ⟨depth, rfl⟩ := Nat.exists_eq_add_of_le' (show 1 ≤ depth by omega)
    have hleft := ihleft (show left.render.length ≤ depth + 1 by omega)
    have hright := ihright (show right.render.length ≤ depth + 1 by omega)
    have hresult : Value.binary (.known op) (.int (Integer.wrap a)) (.int (Integer.wrap b)) =
        .ok (.int (Integer.wrap (f a b))) := BinaryOp.onIntegers_wrap hop a b
    rw [expr.eq_def]
    refine runIn_placedAt_ok ?_ _
    rw [runIn_bind_ok hleft, runIn_bind_ok hright, runIn_ofResult, hresult]
    rfl

/-- A program that is such an expression evaluates to its folded exact value and changes nothing. -/
theorem runIn_program (h : e.HasExact m.store frame n) (hdepth : e.render.length + 1 ≤ depth)
    (line : Int) :
    runIn m (node table depth frame (.program ⟨[.expr e line]⟩)) =
      (.ok (.int (Integer.wrap n)), m) := by
  have hpos := h.length_render_pos
  obtain ⟨depth, rfl⟩ := Nat.exists_eq_add_of_le' (show 2 ≤ depth by omega)
  have hvalue : runIn m (expr table (depth + 1) frame e) = (.ok (.int (Integer.wrap n)), m) :=
    h.runIn_expr table (by omega)
  have hstmt : runIn m (stmt table (depth + 2) frame (.expr e line)) =
      (.ok (.normal (.int (Integer.wrap n))), m) := by
    rw [stmt.eq_def]
    refine runIn_placedAt_ok ?_ _
    cases h <;> exact runIn_bind_ok hvalue _
  have hstatements : runIn m (statements (stmt table (depth + 2) frame) [.expr e line]) =
      (.ok (.normal (.int (Integer.wrap n))), m) :=
    runIn_bind_ok hstmt _
  rw [node, runIn_reportingExhaustion, runIn_bind_ok hstatements]
  rfl

end Evaluation

/-- The text of such an expression is a program that is the expression up to lines, with or without
a semicolon behind it. -/
theorem exists_parse (h : e.HasExact store frame n) {text : String}
    (htext : text = e.render ∨ text = e.render ++ ";") :
    ∃ e' line, parse .unbounded text = .ok ⟨[.expr e' line]⟩ ∧ e.same e' = true := by
  have hread : ∃ q, parse .unbounded text = .ok q ∧ Program.same ⟨[.expr e 0]⟩ q = true := by
    obtain rfl | rfl := htext
    · exact (writtenAs_render h.wellFormed).exists_parse
    · have hprogram : Program.wellFormed ⟨[.expr e 0]⟩ = true :=
        Bool.and_eq_true_iff.mpr ⟨h.wellFormed, rfl⟩
      have hscan := @scanFrom_renderStatements [.expr e 0] hprogram 1 []
      rw [scanFrom_nil, List.append_nil, List.append_nil, renderStatements, renderStatements,
        String.append_empty] at hscan
      exact exists_parse_of_tokens hprogram hscan
  obtain ⟨q, hparse, hsame⟩ := hread
  obtain ⟨e', line, rfl, hexpr⟩ := exists_eq_of_same hsame
  exact ⟨e', line, hparse, hexpr⟩

end HasExact

end Ast.Expr

open Ast.Expr (HasExact)

/-- The canonical text of an expression that is made of literals and of names bound to integers with
`+`, `-`, `*` and the sign evaluates to the exact value of the expression, folded once into the
range of the language. It writes nothing and changes no variable. With or without a semicolon behind
it, it is enough that reading and evaluation may go as deep as the text is long; this also says how
great the recursion limit of a session has to be. -/
theorem evaluate_render_eq_wrap {store : Store} {frame : FrameId} {e : Ast.Expr} {n : Int}
    (he : e.HasExact store frame n) {text : String}
    (htext : text = e.render ∨ text = e.render ++ ";") :
    (∃ p, (∀ reading, .atMost (text.length + 1) ≤ reading → parse reading text = .ok p) ∧
      ∀ table depth m, m.store = store → text.length + 1 ≤ depth →
        Eval.runIn m (Eval.node table depth frame (.program p)) =
          (.ok (.int (Integer.wrap n)), m)) ∧
      ∀ s : Session, s.store = store → s.global = frame → s.nextLimit.1 ≤ greatestLimit →
        text.length + 1 ≤ levelsOf s.nextLimit.1 →
        ((s.evaluate text).1.outcome, (s.evaluate text).1.output, (s.evaluate text).2) =
          (.ok (.int (Integer.wrap n)), "", { s with limit := s.nextLimit.1 }) := by
  obtain ⟨e', line, hparse, hsame⟩ := he.exists_parse htext
  have hlength : e'.render.length ≤ text.length := by
    rw [← e.render_of_same e' hsame]
    obtain rfl | rfl := htext
    · exact Nat.le_refl _
    · rw [String.length_append]
      exact Nat.le_add_right ..
  have hread : ∀ reading, .atMost (text.length + 1) ≤ reading →
      parse reading text = .ok ⟨[.expr e' line]⟩ := by
    intro reading hreading
    rw [parse_of_length_lt hreading, hparse]
  have hrun : ∀ table depth m, m.store = store → text.length + 1 ≤ depth →
      Eval.runIn m (Eval.node table depth frame (.program ⟨[.expr e' line]⟩)) =
        (.ok (.int (Integer.wrap n)), m) := by
    rintro table depth m rfl hdepth
    exact (he.of_same hsame).runIn_program table (by omega) line
  refine ⟨⟨_, hread, hrun⟩, ?_⟩
  rintro s rfl rfl hlimit hlevels
  rw [s.evaluate_eq, if_neg (Nat.not_lt.mpr hlimit), hread _ hlevels]
  dsimp only
  rw [hrun s.builtins _ ⟨s.store, "", []⟩ rfl hlevels]
  rfl

/-- A frame with the greatest integer, inside it one with the least. -/
def extremes : Store :=
  ((((Store.empty.newFrame).2.set 0 "x" (.int Integer.maxValue)).enclose 0).2.set 1 "y"
    (.int Integer.minValue))

/-- The product of two numbers that are out of range themselves. -/
def overflowing : Ast.Expr :=
  .binary (.known .mul)
    (.unary (.known .negate) (.binary (.known .add) (.ident "x" 0) (.int 1 0) 0) 0)
    (.binary (.known .sub) (.int Integer.maxValue 0) (.ident "y" 0) 0) 0

/-- The exact value of the product. -/
def overflow : Int :=
  -(Integer.maxValue + 1) * (Integer.maxValue - Integer.minValue)

/-- A session in the inner frame. -/
def extremesSession : Session :=
  ⟨.standard, none, usualLimit, extremes, 1⟩

/-- The exact value of a product that overflows twice on the way is folded to the least integer. -/
theorem evaluate_render_eq_wrap_overflowing :
    overflowing.HasExact extremes 1 overflow ∧ Integer.wrap overflow = Integer.minValue ∧
      overflowing.render = "((-(x + 1)) * (9223372036854775807 - y))" ∧
      (∃ p, (∀ reading, .atMost (overflowing.render.length + 1) ≤ reading →
          parse reading overflowing.render = .ok p) ∧
        ∀ table depth m, m.store = extremes → overflowing.render.length + 1 ≤ depth →
          Eval.runIn m (Eval.node table depth 1 (.program p)) =
            (.ok (.int Integer.minValue), m)) ∧
      ((extremesSession.evaluate overflowing.render).1.outcome,
          (extremesSession.evaluate overflowing.render).1.output,
          (extremesSession.evaluate overflowing.render).2) =
        (.ok (.int Integer.minValue), "", extremesSession) := by
  have hx : (Ast.Expr.ident "x" 0).HasExact extremes 1 Integer.maxValue :=
    .ident 0 (by decide) (by with_unfolding_all rfl) (by decide) (by decide)
  have hy : (Ast.Expr.ident "y" 0).HasExact extremes 1 Integer.minValue :=
    .ident 0 (by decide) (by with_unfolding_all rfl) (by decide) (by decide)
  have hone : (Ast.Expr.int 1 0).HasExact extremes 1 1 := .int 0 (by decide) (by decide)
  have hgreatest : (Ast.Expr.int Integer.maxValue 0).HasExact extremes 1 Integer.maxValue :=
    .int 0 (by decide) (by decide)
  have hproduct : overflowing.HasExact extremes 1 overflow :=
    .binary 0 rfl (.negate 0 (.binary 0 rfl hx hone)) (.binary 0 rfl hgreatest hy)
  have hwrap : Integer.wrap overflow = Integer.minValue := by decide
  have hrender : overflowing.render = "((-(x + 1)) * (9223372036854775807 - y))" := by decide
  obtain ⟨hprogram, hsession⟩ := evaluate_render_eq_wrap hproduct (.inl rfl)
  rw [hwrap] at hprogram hsession
  refine ⟨hproduct, hwrap, hrender, hprogram, ?_⟩
  have hlevels : overflowing.render.length + 1 ≤ levelsOf usualLimit := by
    rw [hrender]
    decide
  exact hsession extremesSession rfl rfl (by decide) hlevels

end EtherLang
