import Mathlib.Data.List.Forall2
import EtherLang.Proofs.Eval.Comparison
import EtherLang.Proofs.Surface.Recursion
import EtherLang.Session

/-!
# Raising the recursion limit

The recursion limit bounds how far reading, desugaring and evaluation may each go down. A text that
is done with without coming to the bound is done with in the same way under every greater limit: it
has the same value or the same error, writes the same text and leaves the same variables. Nothing
but the report at the very end takes notice of a bound that has been come to.
-/

namespace EtherLang

namespace Surface

section Desugaring

variable {α β : Type} {x y : Except ParseError α} {f g : α → Except ParseError β}

/-- The second result is the first one, unless that was for want of depth. -/
def SameUnlessTooDeep (x y : Except ParseError α) : Prop :=
  x = .error tooDeep ∨ y = x

/-- Steps one after the other. -/
theorem SameUnlessTooDeep.bind (hxy : SameUnlessTooDeep x y)
    (hfg : ∀ a, SameUnlessTooDeep (f a) (g a)) : SameUnlessTooDeep (x >>= f) (y >>= g) := by
  obtain rfl | rfl := hxy
  · exact .inl rfl
  · cases y with
    | error e => exact .inr rfl
    | ok a => exact hfg a

mutual

/-- With more depth an expression is desugared as with less. -/
theorem Expr.desugar_of_le {depth depth' : Depth} (hle : depth ≤ depth') (e : Expr) :
    SameUnlessTooDeep (e.desugar depth) (e.desugar depth') := by
  rw [Expr.desugar.eq_def, Expr.desugar.eq_def]
  cases hdown : depth.down? with
  | none => exact .inl rfl
  | some deeper =>
    obtain ⟨deeper', hdown', hle⟩ := Depth.down?_of_le hle hdown
    simp only [hdown']
    match e with
    | .integer _ _ | .boolean _ _ | .ident _ _ => exact .inr rfl
    | .unary op operand line => exact (operand.desugar_of_le hle).bind fun _ => .inr rfl
    | .binary op left right line =>
      exact (left.desugar_of_le hle).bind fun _ => (right.desugar_of_le hle).bind fun _ => .inr rfl
    | .function params body line => exact (body.desugar_of_le hle).bind fun _ => .inr rfl
    | .call callee args line =>
      exact (callee.desugar_of_le hle).bind fun _ => (desugarList_of_le hle args).bind fun _ =>
        .inr rfl
    | .index array index line =>
      exact (array.desugar_of_le hle).bind fun _ => (index.desugar_of_le hle).bind fun _ => .inr rfl
    | .array elements line => exact (desugarList_of_le hle elements).bind fun _ => .inr rfl
    | .arrow value target line =>
      exact (value.desugar_of_le hle).bind fun _ => (target.desugar_of_le hle).bind fun _ =>
        .inr rfl
    | .cond condition consequence none line =>
      exact (condition.desugar_of_le hle).bind fun _ => (consequence.desugar_of_le hle).bind
        fun _ => .inr rfl
    | .cond condition consequence (some alternative) line =>
      exact (condition.desugar_of_le hle).bind fun _ => (consequence.desugar_of_le hle).bind
        fun _ => (alternative.desugar_of_le hle).bind fun _ => .inr rfl
termination_by structural e

/-- With more depth expressions are desugared as with less. -/
theorem desugarList_of_le {depth depth' : Depth} (hle : depth ≤ depth') (es : List Expr) :
    SameUnlessTooDeep (desugarList depth es) (desugarList depth' es) := by
  match es with
  | [] => exact .inr rfl
  | first :: others =>
    exact (first.desugar_of_le hle).bind fun _ => (desugarList_of_le hle others).bind fun _ =>
      .inr rfl
termination_by structural es

/-- With more depth a statement is desugared as with less. -/
theorem Stmt.desugar_of_le {depth depth' : Depth} (hle : depth ≤ depth') (s : Stmt) :
    SameUnlessTooDeep (s.desugar depth) (s.desugar depth') := by
  match s with
  | .var _ value _ | .ret value _ | .expr value _ =>
    exact (value.desugar_of_le hle).bind fun _ => .inr rfl
termination_by structural s

/-- With more depth a block is desugared as with less. -/
theorem Block.desugar_of_le {depth depth' : Depth} (hle : depth ≤ depth') (b : Block) :
    SameUnlessTooDeep (b.desugar depth) (b.desugar depth') := by
  match b with
  | .mk statements line => exact (desugarStatements_of_le hle statements).bind fun _ => .inr rfl
termination_by structural b

/-- With more depth statements are desugared as with less. -/
theorem desugarStatements_of_le {depth depth' : Depth} (hle : depth ≤ depth') (ss : List Stmt) :
    SameUnlessTooDeep (desugarStatements depth ss) (desugarStatements depth' ss) := by
  match ss with
  | [] => exact .inr rfl
  | first :: others =>
    exact (first.desugar_of_le hle).bind fun _ => (desugarStatements_of_le hle others).bind
      fun _ => .inr rfl
termination_by structural ss

end

end Desugaring

end Surface

/-- With more depth a text is the same program, or is rejected in the same way, unless it was the
depth that was missing. -/
theorem parse_of_le {depth depth' : Depth} (hle : depth ≤ depth') (source : String) :
    (∃ line, parse depth source = .error (.rejected ⟨.tooDeep, line⟩)) ∨
      parse depth' source = parse depth source := by
  rw [parse, parse]
  obtain ⟨line, hdeep⟩ | hread := Surface.parse_of_le hle source
  · rw [hdeep]
    exact .inl ⟨line, rfl⟩
  · rw [hread]
    cases Surface.parse depth source with
    | error failure => exact .inr rfl
    | ok tree =>
      simp only [desugar, bind, Except.bind]
      obtain hdeep | hsame := Surface.desugarStatements_of_le hle tree
      · rw [hdeep]
        exact .inl ⟨1, rfl⟩
      · rw [hsame]
        exact .inr rfl

/-- The comparison of two runs from the same state of which the second one has more depth. -/
def Comparison.deepening : Comparison where
  lenient := True
  readable _ := True
  frames := Eq
  states := Eq
  get? := by
    rintro a _ c _ name rfl rfl -
    cases a.store.get? name c with
    | none => exact .none
    | some v => exact .some (Value.related_self fun _ _ _ => ⟨rfl, fun _ _ => trivial⟩)
  set := by
    rintro a _ c _ v w name rfl rfl hvw
    rw [hvw.eq fun _ _ => id]
  enclose := by
    rintro a _ c _ rfl rfl
    exact ⟨rfl, rfl⟩
  write := by
    rintro a _ text rfl
    rfl
  closure := by
    rintro a _ c _ line rfl rfl
    rfl

/-- Runs that belong together when the second one has more depth have one end. -/
theorem Comparison.eq_of_ends_deepening {r r' : Except Fault Value × Machine}
    (h : deepening.Ends deepening.Values r r') : r' = r := by
  cases h with
  | ok hvalue hstates =>
    exact Prod.ext (congrArg Except.ok (hvalue.eq fun _ _ => id).symm) hstates.symm
  | error hstates => exact Prod.ext rfl hstates.symm

namespace Eval

/-- With more depth a node is evaluated as with less, unless it was the depth that was missing. -/
theorem runIn_node_of_le {depth depth' : Nat} (hle : depth ≤ depth') (table : BuiltinTable)
    (frame : FrameId) (n : Ast.Node) (m : Machine) :
    (runIn m (node table depth frame n)).1 = .error (.error ⟨.recursionLimit, some n.line⟩) ∨
      runIn m (node table depth' frame n) = runIn m (node table depth frame n) := by
  have hends := Comparison.deepening.ends_node table (.inr ⟨trivial, hle⟩) (rfl : frame = frame)
    (n := n) (fun _ _ => trivial) (rfl : m = m)
  obtain hends | ⟨-, hdeep⟩ := hends
  · exact .inr (Comparison.eq_of_ends_deepening hends)
  · exact .inl hdeep

/-- With more depth a function is applied as with less, unless it was the depth that was missing. -/
theorem runIn_apply_of_le {depth depth' : Nat} (hle : depth ≤ depth') (table : BuiltinTable)
    (line : Option Int) (function : Value) (args : List Value) (m : Machine) :
    (runIn m (apply table depth line function args)).1 = .error .exhausted ∨
      runIn m (apply table depth' line function args) =
        runIn m (apply table depth line function args) := by
  have hfunction : Comparison.deepening.Values function function :=
    Value.related_self fun _ _ _ => ⟨rfl, fun _ _ => trivial⟩
  have hargs : List.Forall₂ Comparison.deepening.Values args args :=
    List.forall₂_same.mpr fun _ _ => Value.related_self fun _ _ _ => ⟨rfl, fun _ _ => trivial⟩
  have hends := (Comparison.deepening.at_of_depths table (.inr ⟨trivial, hle⟩)).apply line
    hfunction hargs m m rfl
  obtain hends | ⟨-, hdeep⟩ := hends
  · exact .inr (Comparison.eq_of_ends_deepening hends)
  · exact .inl hdeep

end Eval

/-- The failure is for want of depth: a text is nested too deeply, or the calls of a program are. -/
def Failure.IsExhaustion : Failure → Prop
  | parse e => e.cause = .tooDeep
  | eval e => e.cause = .recursionLimit
  | broken _ => False

namespace Session

/-- A text that does not fail for want of depth is evaluated alike under every greater recursion
limit that can be set: with the same value or the same failure, the same output and the same
variables afterwards. -/
theorem evaluate_of_limit_le (s s' : Session) (source : String)
    (hbuiltins : s'.builtins = s.builtins) (hstore : s'.store = s.store)
    (hglobal : s'.global = s.global) (hle : s.nextLimit.1 ≤ s'.nextLimit.1)
    (hset : s'.nextLimit.1 ≤ greatestLimit)
    (hends : ∀ failure, (s.evaluate source).1.outcome = .error failure → ¬failure.IsExhaustion) :
    (s'.evaluate source).1.outcome = (s.evaluate source).1.outcome ∧
      (s'.evaluate source).1.output = (s.evaluate source).1.output ∧
      (s'.evaluate source).2.store = (s.evaluate source).2.store ∧
      (s'.evaluate source).2.global = (s.evaluate source).2.global := by
  have hlevels : levelsOf s.nextLimit.1 ≤ levelsOf s'.nextLimit.1 := Nat.div_le_div_right hle
  have hdepth : Depth.atMost (levelsOf s.nextLimit.1) ≤ .atMost (levelsOf s'.nextLimit.1) := hlevels
  have heq := s.evaluate_eq source
  have heq' := s'.evaluate_eq source
  rw [if_neg (Nat.not_lt.mpr (Nat.le_trans hle hset))] at heq
  rw [if_neg (Nat.not_lt.mpr hset)] at heq'
  obtain ⟨line, hdeep⟩ | hread := parse_of_le hdepth source
  · rw [hdeep] at heq
    exact absurd rfl (hends (.parse ⟨.tooDeep, line⟩) (congrArg (·.1) heq))
  · rw [hread] at heq'
    cases hparse : parse (.atMost (levelsOf s.nextLimit.1)) source with
    | error failure =>
      simp only [hparse, Prod.mk.injEq] at heq heq'
      simp [heq, heq', hstore, hglobal]
    | ok program =>
      obtain hdeep | hrun := Eval.runIn_node_of_le hlevels s.builtins s.global (.program program)
        ⟨s.store, "", []⟩
      · simp only [hparse, hdeep, Prod.mk.injEq] at heq
        exact absurd rfl (hends (.eval ⟨.recursionLimit, some program.line⟩) heq.1)
      · simp only [hparse, hbuiltins, hstore, hglobal, hrun, Prod.mk.injEq] at heq heq'
        simp [heq, heq']

/-- A function counts down by calling itself, and an integer cannot be added to what it returns. -/
def countdown : String :=
  "var f = |n| \x7b puts(n); if (n == 0) \x7b [] \x7d else \x7b f(n - 1) \x7d \x7d; f(1) + 1"

/-- The tokens of this text. -/
def countdownTokens : List Token :=
  [⟨.kwVar, "var", 1⟩, ⟨.ident, "f", 1⟩, ⟨.assign, "=", 1⟩, ⟨.bar, "|", 1⟩, ⟨.ident, "n", 1⟩,
    ⟨.bar, "|", 1⟩, ⟨.leftBrace, "\x7b", 1⟩, ⟨.ident, "puts", 1⟩, ⟨.leftParen, "(", 1⟩,
    ⟨.ident, "n", 1⟩, ⟨.rightParen, ")", 1⟩, ⟨.semicolon, ";", 1⟩, ⟨.kwIf, "if", 1⟩,
    ⟨.leftParen, "(", 1⟩, ⟨.ident, "n", 1⟩, ⟨.equal, "==", 1⟩, ⟨.integer, "0", 1⟩,
    ⟨.rightParen, ")", 1⟩, ⟨.leftBrace, "\x7b", 1⟩, ⟨.leftBracket, "[", 1⟩,
    ⟨.rightBracket, "]", 1⟩, ⟨.rightBrace, "\x7d", 1⟩, ⟨.kwElse, "else", 1⟩,
    ⟨.leftBrace, "\x7b", 1⟩, ⟨.ident, "f", 1⟩, ⟨.leftParen, "(", 1⟩, ⟨.ident, "n", 1⟩,
    ⟨.minus, "-", 1⟩, ⟨.integer, "1", 1⟩, ⟨.rightParen, ")", 1⟩, ⟨.rightBrace, "\x7d", 1⟩,
    ⟨.rightBrace, "\x7d", 1⟩, ⟨.semicolon, ";", 1⟩, ⟨.ident, "f", 1⟩, ⟨.leftParen, "(", 1⟩,
    ⟨.integer, "1", 1⟩, ⟨.rightParen, ")", 1⟩, ⟨.plus, "+", 1⟩, ⟨.integer, "1", 1⟩]

/-- The statements that it is read as. -/
def countdownStatements : List Surface.Stmt :=
  [.var ⟨"f", 1⟩ (.function [⟨"n", 1⟩] (.mk [.expr (.call (.ident "puts" 1) [.ident "n" 1] 1) 1,
      .expr (.cond (.binary .equal (.ident "n" 1) (.integer "0" 1) 1)
        (.mk [.expr (.array [] 1) 1] 1)
        (some (.mk [.expr (.call (.ident "f" 1)
          [.binary .sub (.ident "n" 1) (.integer "1" 1) 1] 1) 1] 1)) 1) 1] 1) 1) 1,
    .expr (.binary .add (.call (.ident "f" 1) [.integer "1" 1] 1) (.integer "1" 1) 1) 1]

/-- Under a limit of 100 and under the usual one the function counts down and the sum fails. -/
theorem evaluate_of_limit_le_countdown :
    let s := start .standard (some 100)
    let s' := start .standard none
    let failure : Failure := .eval ⟨.typeMismatch .array (.known .add) .integer, some 1⟩
    s.nextLimit.1 = 100 ∧ s'.nextLimit.1 = 10000 ∧
      (s.evaluate countdown).1.outcome = .error failure ∧ ¬failure.IsExhaustion ∧
      (s'.evaluate countdown).1.outcome = .error failure ∧
      (s'.evaluate countdown).1.output = "1\n0\n" ∧
      (s'.evaluate countdown).2.store = (s.evaluate countdown).2.store := by
  intro s s' failure
  have htokens : tokenStream countdown = ⟨countdownTokens, 1⟩ := by decide +kernel
  have htree : Surface.parse (.atMost 50) countdown = .ok countdownStatements := by
    rw [Surface.parse_eq_unrolled 100, htokens]
    rfl
  have hlevels : levelsOf s.nextLimit.1 = 50 := by decide
  have heq := s.evaluate_eq countdown
  rw [hlevels, parse, htree] at heq
  have houtcome : (s.evaluate countdown).1.outcome = .error failure :=
    (congrArg (·.1) heq).trans (by with_unfolding_all rfl)
  have houtput : (s.evaluate countdown).1.output = "1\n0\n" :=
    (congrArg (·.2.1) heq).trans (by decide +kernel)
  have hfailure : ¬failure.IsExhaustion := by rintro ⟨⟩
  obtain ⟨houtcome', houtput', hstore, -⟩ := evaluate_of_limit_le s s' countdown rfl rfl rfl
    (by decide) (by decide) (by rw [houtcome]; rintro _ ⟨⟩; exact hfailure)
  exact ⟨rfl, rfl, houtcome, hfailure, houtcome'.trans houtcome, houtput'.trans houtput, hstore⟩

end Session

end EtherLang
