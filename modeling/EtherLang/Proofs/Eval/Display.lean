import Mathlib.Data.List.Forall2
import EtherLang.Proofs.Ast.Agreement
import EtherLang.Proofs.Ast.RoundTrip
import EtherLang.Proofs.Eval.Comparison
import EtherLang.Proofs.Eval.Failing
import EtherLang.Proofs.Surface.Levels
import EtherLang.Proofs.Surface.Recursion

/-!
# Display forms are source text

The display form of a value reads back as an expression that has a value with the same display form.
A number below zero is written as the negation of a numeral, an array by its elements and a function
as the literal that it was made from. Reading the text goes as for the canonical text of a tree,
except that a negation stands without parentheses. Evaluating what is read makes nothing but new
closures, so it changes no frame and writes nothing.
-/

namespace EtherLang

namespace Ast

mutual

/-- The functions that are written in an expression, by their parameters and bodies. -/
def Expr.functions : Expr → List (List Ident × Block)
  | .ident .. | .int .. | .bool .. | .foreign => []
  | .unary _ operand _ => operand.functions
  | .binary _ left right _ => left.functions ++ right.functions
  | .function params body _ => (params, body) :: body.functions
  | .call callee args _ => callee.functions ++ functionsOfList args
  | .array elements _ => functionsOfList elements
  | .index array index _ => array.functions ++ index.functions
  | .cond condition consequence none _ => condition.functions ++ consequence.functions
  | .cond condition consequence (some alternative) _ =>
    condition.functions ++ consequence.functions ++ alternative.functions
  | .misplaced statement => statement.functions

/-- The functions that are written in expressions. -/
def functionsOfList : List Expr → List (List Ident × Block)
  | [] => []
  | first :: others => first.functions ++ functionsOfList others

/-- The functions that are written in a statement. -/
def Stmt.functions : Stmt → List (List Ident × Block)
  | .var _ value _ | .ret value _ | .expr value _ => value.functions
  | .block body => body.functions
  | .misplaced expression => expression.functions
  | .program statements => functionsOfStatements statements

/-- The functions that are written in a block. -/
def Block.functions : Block → List (List Ident × Block)
  | .mk statements _ => functionsOfStatements statements

/-- The functions that are written in statements. -/
def functionsOfStatements : List Stmt → List (List Ident × Block)
  | [] => []
  | first :: others => first.functions ++ functionsOfStatements others

end

/-- The functions that are written in a program. -/
def Program.functions (p : Program) : List (List Ident × Block) :=
  functionsOfStatements p.statements

/-- A function can be spelled if its parameters are names and its body can be spelled. -/
def spellsFunction (f : List Ident × Block) : Bool :=
  f.1.all (isName ·.name) && f.2.wellFormed

mutual

/-- The functions of an expression that can be spelled can be spelled. -/
theorem Expr.functions_wellFormed (e : Expr) (he : e.wellFormed = true) :
    e.functions.all spellsFunction = true := by
  match e with
  | .ident .. | .int .. | .bool .. => rfl
  | .unary (.known _) operand _ => exact operand.functions_wellFormed he
  | .binary (.known _) left right _ =>
    rw [Expr.wellFormed, Bool.and_eq_true] at he
    simp [Expr.functions, left.functions_wellFormed he.1, right.functions_wellFormed he.2]
  | .function params body _ =>
    have hbody := he
    rw [Expr.wellFormed, Bool.and_eq_true] at hbody
    rw [Expr.functions, List.all_cons, body.functions_wellFormed hbody.2, Bool.and_true]
    exact he
  | .call callee args _ =>
    rw [Expr.wellFormed, Bool.and_eq_true] at he
    simp [Expr.functions, callee.functions_wellFormed he.1, functionsOfList_wellFormed args he.2]
  | .array elements _ => exact functionsOfList_wellFormed elements he
  | .index array index _ =>
    rw [Expr.wellFormed, Bool.and_eq_true] at he
    simp [Expr.functions, array.functions_wellFormed he.1, index.functions_wellFormed he.2]
  | .cond condition consequence none _ =>
    rw [Expr.wellFormed, Bool.and_eq_true] at he
    simp [Expr.functions, condition.functions_wellFormed he.1,
      consequence.functions_wellFormed he.2]
  | .cond condition consequence (some alternative) _ =>
    rw [Expr.wellFormed, Bool.and_eq_true, Bool.and_eq_true] at he
    simp [Expr.functions, condition.functions_wellFormed he.1.1,
      consequence.functions_wellFormed he.1.2, alternative.functions_wellFormed he.2]
  | .unary (.unknown _) _ _ | .binary (.unknown _) _ _ _ | .misplaced _ | .foreign => cases he
termination_by structural e

/-- The functions of expressions that can be spelled can be spelled. -/
theorem functionsOfList_wellFormed (es : List Expr) (hes : wellFormedList es = true) :
    (functionsOfList es).all spellsFunction = true := by
  match es with
  | [] => rfl
  | first :: others =>
    rw [wellFormedList, Bool.and_eq_true] at hes
    rw [functionsOfList, List.all_append, first.functions_wellFormed hes.1,
      functionsOfList_wellFormed others hes.2]
    rfl
termination_by structural es

/-- The functions of a statement that can be spelled can be spelled. -/
theorem Stmt.functions_wellFormed (s : Stmt) (hs : s.wellFormed = true) :
    s.functions.all spellsFunction = true := by
  match s with
  | .var _ value _ =>
    rw [Stmt.wellFormed, Bool.and_eq_true] at hs
    exact value.functions_wellFormed hs.2
  | .ret value _ | .expr value _ => exact value.functions_wellFormed hs
  | .block _ | .misplaced _ | .program _ => cases hs
termination_by structural s

/-- The functions of a block that can be spelled can be spelled. -/
theorem Block.functions_wellFormed (b : Block) (hb : b.wellFormed = true) :
    b.functions.all spellsFunction = true := by
  match b with
  | .mk statements _ => exact functionsOfStatements_wellFormed statements hb
termination_by structural b

/-- The functions of statements that can be spelled can be spelled. -/
theorem functionsOfStatements_wellFormed (ss : List Stmt)
    (hss : wellFormedStatements ss = true) :
    (functionsOfStatements ss).all spellsFunction = true := by
  match ss with
  | [] => rfl
  | first :: others =>
    rw [wellFormedStatements, Bool.and_eq_true] at hss
    rw [functionsOfStatements, List.all_append, first.functions_wellFormed hss.1,
      functionsOfStatements_wellFormed others hss.2]
    rfl
termination_by structural ss

end

end Ast

namespace Value

mutual

/-- Whether the display form of a value is source text: its numbers are literals or their negations,
and its functions can be spelled. -/
def spellable : Value → Bool
  | int n => -Integer.maxValue ≤ n && n ≤ Integer.maxValue
  | bool _ => true
  | array elements => spellableList elements
  | closure params body _ => Ast.spellsFunction (params, body)
  | null | builtin _ => false

/-- Whether the display forms of values are source text. -/
def spellableList : List Value → Bool
  | [] => true
  | first :: others => first.spellable && spellableList others

end

mutual

/-- The expression that the display form of a value spells. -/
def literal : Value → Ast.Expr
  | int (.ofNat n) => .int n 0
  | int (.negSucc n) => .unary (.known .negate) (.int (n + 1 : Nat) 0) 0
  | bool b => .bool b 0
  | array elements => .array (literals elements) 0
  | closure params body _ => .function params body 0
  | null | builtin _ => .foreign

/-- The expressions that the display forms of values spell. -/
def literals : List Value → List Ast.Expr
  | [] => []
  | first :: others => first.literal :: literals others

end

mutual

/-- The tokens of the display form of a value on a line. -/
def tokens (line : Nat) : Value → List Token
  | int (.ofNat n) => (Ast.Expr.int n 0).tokens line
  | int (.negSucc n) =>
    ⟨UnaryOp.negate.tokenKind, UnaryOp.negate.symbol, line⟩ ::
      (Ast.Expr.int (n + 1 : Nat) 0).tokens line
  | bool b => (Ast.Expr.bool b 0).tokens line
  | array elements =>
    symbolToken line '[' :: (tokensOfList line elements ++ [symbolToken line ']'])
  | closure params body _ => (Ast.Expr.function params body 0).tokens line
  | null | builtin _ => []

/-- The tokens of the display forms of values with commas between them. -/
def tokensOfList (line : Nat) : List Value → List Token
  | [] => []
  | [last] => last.tokens line
  | first :: others => first.tokens line ++ symbolToken line ',' :: tokensOfList line others

end

/-- A number that is not below zero is spelled by a literal. -/
theorem wellFormed_ofNat {n : Nat} (h : (int (.ofNat n)).spellable = true) :
    (Ast.Expr.int n 0).wellFormed = true := by
  simp only [spellable, Bool.and_eq_true, decide_eq_true_eq] at h
  simp only [Ast.Expr.wellFormed, Bool.and_eq_true, decide_eq_true_eq]
  exact ⟨Int.natCast_nonneg n, h.2⟩

/-- The negation of a number below zero is spelled by a literal. -/
theorem wellFormed_negSucc {n : Nat} (h : (int (.negSucc n)).spellable = true) :
    (Ast.Expr.int (n + 1 : Nat) 0).wellFormed = true := by
  simp only [spellable, Bool.and_eq_true, decide_eq_true_eq] at h
  simp only [Ast.Expr.wellFormed, Bool.and_eq_true, decide_eq_true_eq]
  exact ⟨Int.natCast_nonneg _, Int.neg_le_neg_iff.mp h.1⟩

/-- The display form of a number is scanned as its tokens wherever a word may end. -/
theorem scanFrom_display_int {n : Int} (hn : (int n).spellable = true) (line : Nat)
    {rest : List Char} (hrest : Breaks rest) :
    (scanFrom line ((int n).display.toList ++ rest)).tokens =
      (int n).tokens line ++ (scanFrom line rest).tokens := by
  cases n with
  | ofNat n =>
    rw [display, tokens]
    exact (Ast.Expr.int n 0).scanFrom_render (wellFormed_ofNat hn) line hrest
  | negSucc n =>
    have hwellFormed := wellFormed_negSucc hn
    -- The digits do not begin with `>`, so the sign is a token by itself.
    obtain ⟨c, cs, hcs, hc⟩ := (Ast.Expr.int (n + 1 : Nat) 0).exists_render_head hwellFormed
    have hdigits := (Ast.Expr.int (n + 1 : Nat) 0).scanFrom_render hwellFormed line hrest
    have htext : (int (.negSucc n)).display =
        UnaryOp.negate.symbol ++ (Ast.Expr.int (n + 1 : Nat) 0).render := by
      rw [display, Ast.Expr.render]
      rfl
    rw [hcs, List.cons_append] at hdigits
    rw [htext, String.toList_append, List.append_assoc, hcs, List.cons_append,
      Ast.scanFrom_unary .negate hc, hdigits, tokens, List.cons_append]

mutual

/-- The display form of a value is scanned as its tokens wherever a word may end. -/
theorem scanFrom_display (v : Value) (hv : v.spellable = true) (line : Nat) {rest : List Char}
    (hrest : Breaks rest) :
    (scanFrom line (v.display.toList ++ rest)).tokens =
      v.tokens line ++ (scanFrom line rest).tokens := by
  match v with
  | int n => exact scanFrom_display_int hv line hrest
  | bool b =>
    rw [display, tokens]
    exact (Ast.Expr.bool b 0).scanFrom_render rfl line hrest
  | array elements =>
    rw [spellable] at hv
    have htext : (array elements).display.toList ++ rest =
        '[' :: ((displayList elements).toList ++ ']' :: rest) := by
      simp [display]
    rw [htext, scanFrom_plain (by decide), scanFrom_displayList elements hv line (breaks_cons rfl),
      scanFrom_plain (by decide)]
    simp [tokens]
  | closure params body _ =>
    rw [spellable] at hv
    rw [display, tokens]
    exact (Ast.Expr.function params body 0).scanFrom_render hv line hrest
  | null | builtin _ => rw [spellable] at hv; cases hv
termination_by structural v

/-- The display forms of values are scanned as their tokens. -/
theorem scanFrom_displayList (vs : List Value) (hvs : spellableList vs = true) (line : Nat)
    {rest : List Char} (hrest : Breaks rest) :
    (scanFrom line ((displayList vs).toList ++ rest)).tokens =
      tokensOfList line vs ++ (scanFrom line rest).tokens := by
  match vs with
  | [] => rfl
  | [last] =>
    rw [spellableList, Bool.and_eq_true] at hvs
    exact last.scanFrom_display hvs.1 line hrest
  | first :: second :: others =>
    rw [spellableList, Bool.and_eq_true] at hvs
    have htext : (displayList (first :: second :: others)).toList ++ rest =
        first.display.toList ++
          ',' :: ' ' :: ((displayList (second :: others)).toList ++ rest) := by
      simp [displayList]
    rw [htext, first.scanFrom_display hvs.1 line (breaks_cons rfl), scanFrom_plain (by decide),
      scanFrom_blank, scanFrom_displayList (second :: others) hvs.2 line hrest]
    simp [tokensOfList]
termination_by structural vs

end

/-- The display form of a value does not spell an `if`. -/
theorem literal_same_cond (v : Value) (condition : Ast.Expr) (consequence : Ast.Block)
    (alternative : Option Ast.Block) (line : Int) :
    v.literal.same (.cond condition consequence alternative line) = false := by
  cases v with
  | int n => cases n <;> simp only [literal, Ast.Expr.same]
  | _ => simp only [literal, Ast.Expr.same]

section Reading

open Surface.Grammar Surface.Parser

mutual

/-- The tokens of the display form of a value are read back as the expression that it spells. -/
theorem readBack (v : Value) (hv : v.spellable = true) (line : Nat) :
    v.literal.ReadBack .unary (v.tokens line) := by
  match v with
  | int n =>
    cases n with
    | ofNat n =>
      rw [literal, tokens]
      exact ((Ast.Expr.int n 0).readBack (wellFormed_ofNat hv) line).of_binding_le (by decide)
    | negSucc n =>
      rw [literal, tokens]
      exact .unary .negate ((Ast.Expr.int (n + 1 : Nat) 0).readBack (wellFormed_negSucc hv) line)
  | bool b => exact ((Ast.Expr.bool b 0).readBack rfl line).of_binding_le (by decide)
  | array elements =>
    rw [spellable] at hv
    have helements := readBack_literals elements hv line
    rw [literal, tokens]
    exact (Ast.Expr.ReadBack.array helements).of_binding_le (by decide)
  | closure params body _ =>
    rw [spellable] at hv
    exact ((Ast.Expr.function params body 0).readBack hv line).of_binding_le (by decide)
  | null | builtin _ =>
    rw [spellable] at hv
    cases hv
termination_by structural v

/-- The tokens of the display forms of values are read back as the expressions that they spell. -/
theorem readBack_literals (vs : List Value) (hvs : spellableList vs = true) (line : Nat) :
    Ast.ReadBackList (literals vs) (tokensOfList line vs) := by
  match vs with
  | [] => exact Ast.readBack_list [] rfl line
  | [last] =>
    rw [spellableList, Bool.and_eq_true] at hvs
    exact (last.readBack hvs.1 line).last
  | first :: second :: others =>
    rw [spellableList, Bool.and_eq_true] at hvs
    exact (first.readBack hvs.1 line).cons (readBack_literals (second :: others) hvs.2 line) line
termination_by structural vs

end

mutual

/-- The numerals of the display form of a value are short. -/
theorem convertible (v : Value) (hv : v.spellable = true) (line : Nat) :
    Throughout Convertible (v.tokens line) := by
  match v with
  | int n =>
    cases n with
    | ofNat n =>
      rw [tokens]
      exact (Ast.Expr.int n 0).convertible (wellFormed_ofNat hv) line
    | negSucc n =>
      have hdigits := (Ast.Expr.int (n + 1 : Nat) 0).convertible (wellFormed_negSucc hv) line
      rw [tokens, throughout_cons]
      exact ⟨Ast.convertible_unaryOp .negate _ line, hdigits⟩
  | bool b => exact (Ast.Expr.bool b 0).convertible rfl line
  | array elements =>
    rw [spellable] at hv
    have helements := convertible_literals elements hv line
    simp [tokens, Ast.convertible_symbolToken, helements]
  | closure params body _ =>
    rw [spellable] at hv
    exact (Ast.Expr.function params body 0).convertible hv line
  | null | builtin _ =>
    rw [spellable] at hv
    cases hv
termination_by structural v

/-- The numerals of the display forms of values are short. -/
theorem convertible_literals (vs : List Value) (hvs : spellableList vs = true) (line : Nat) :
    Throughout Convertible (tokensOfList line vs) := by
  match vs with
  | [] => simp [tokensOfList]
  | [last] =>
    rw [spellableList, Bool.and_eq_true] at hvs
    exact last.convertible hvs.1 line
  | first :: second :: others =>
    rw [spellableList, Bool.and_eq_true] at hvs
    have hfirst := first.convertible hvs.1 line
    have hothers := convertible_literals (second :: others) hvs.2 line
    simp [tokensOfList, Ast.convertible_symbolToken, hfirst, hothers]
termination_by structural vs

end

/-- The display form of a value is a program that is the expression it spells. -/
theorem exists_parse_display {v : Value} (hv : v.spellable = true) :
    ∃ e line, parse .unbounded v.display = .ok ⟨[.expr e line]⟩ ∧ v.literal.same e = true := by
  obtain ⟨s, e, hs, hdesugar, hsame⟩ := (v.readBack hv 1).arrow
  obtain ⟨t, us, hhead, -⟩ := hs.exists_head
  have hstatement : Statement (v.tokens 1) (.expr s t.line) := by
    rw [hhead] at hs ⊢
    exact .expr hs
  have hscan := @scanFrom_display v hv 1 [] nofun
  rw [scanFrom_nil, List.append_nil, List.append_nil] at hscan
  have hread : Surface.parse .unbounded v.display = .ok [.expr s t.line] := by
    have htokens : (tokenStream v.display).tokens = v.tokens 1 := hscan
    rw [Surface.parse, htokens]
    exact statements_complete (.last hstatement) (v.convertible hv 1)
  refine ⟨e, t.line, ?_, hsame⟩
  simp only [parse, hread, ok_bind, desugar, Surface.desugarStatements, Surface.Stmt.desugar,
    hdesugar]
  rfl

end Reading

/-- A value with the same display form, which is the same value unless there are closures in it. -/
def Copies (v w : Value) : Prop :=
  w.display = v.display ∧ ((∀ body captured, ¬v.Holds body captured) → w = v)

/-- A value is a copy of itself. -/
theorem Copies.refl (v : Value) : v.Copies v :=
  ⟨rfl, fun _ => rfl⟩

/-- Copies of values have the display forms of the values. -/
theorem displayList_of_copies {vs ws : List Value} (h : List.Forall₂ Copies vs ws) :
    displayList ws = displayList vs := by
  induction h with
  | nil => rfl
  | @cons v w vs ws hv hvs ih =>
    cases hvs with
    | nil => exact hv.1
    | @cons v' w' vs ws =>
      change w.display ++ ", " ++ displayList (w' :: ws) =
        v.display ++ ", " ++ displayList (v' :: vs)
      rw [hv.1, ih]

/-- Copies of values without closures are the values. -/
theorem eq_of_copies {vs ws : List Value} (h : List.Forall₂ Copies vs ws)
    (hvs : ∀ v ∈ vs, ∀ body captured, ¬v.Holds body captured) : ws = vs := by
  induction h with
  | nil => rfl
  | cons hv _ ih =>
    rw [List.forall_mem_cons] at hvs
    rw [hv.2 hvs.1, ih hvs.2]

/-- An array of copies is a copy of the array. -/
theorem copies_array {vs ws : List Value} (h : List.Forall₂ Copies vs ws) :
    (array vs).Copies (array ws) := by
  refine ⟨?_, fun hvs => ?_⟩
  · rw [display, display, displayList_of_copies h]
  · rw [eq_of_copies h fun v hv body captured hholds => hvs body captured (.array hv hholds)]

/-- A closure with the same parameters and the same body up to lines is a copy, in any frame. -/
theorem copies_closure {params params' : List Ident} {body body' : Ast.Block}
    (hparams : Ast.sameNames params params' = true) (hbody : body.same body' = true)
    (captured captured' : FrameId) :
    (closure params body captured).Copies (closure params' body' captured') := by
  refine ⟨?_, fun hnone => absurd (.closure params) (hnone body captured)⟩
  rw [display, display, Ast.renderParams_of_same hparams, body.render_of_same body' hbody]

end Value

namespace Eval

/-- The computation gives a value with the property, and it changes no frame and writes nothing. -/
def Yields {α : Type} (property : α → Prop) (action : Eval α) : Prop :=
  ∀ m, ∃ a m', runIn m action = (.ok a, m') ∧ m'.store = m.store ∧ m'.output = m.output ∧ property a

section Yields

variable {α β : Type} {p : α → Prop} {q : β → Prop}

/-- A value with the property is given. -/
theorem yields_pure {a : α} (ha : p a) : Yields p (pure a : Eval α) :=
  fun m => ⟨a, m, rfl, rfl, rfl, ha⟩

/-- A value with a property is given also for a weaker one. -/
theorem Yields.imp {p' : α → Prop} {x : Eval α} (hx : Yields p x) (himp : ∀ a, p a → p' a) :
    Yields p' x := by
  intro m
  obtain ⟨a, m', hrun, hstore, houtput, ha⟩ := hx m
  exact ⟨a, m', hrun, hstore, houtput, himp a ha⟩

/-- What follows a computation makes use of the property of its value. -/
theorem Yields.bind {x : Eval α} {f : α → Eval β} (hx : Yields p x)
    (hf : ∀ a, p a → Yields q (f a)) : Yields q (x >>= f) := by
  intro m
  obtain ⟨a, m₁, hrun, hstore, houtput, ha⟩ := hx m
  obtain ⟨b, m₂, hrun', hstore', houtput', hb⟩ := hf a ha m₁
  refine ⟨b, m₂, ?_, hstore'.trans hstore, houtput'.trans houtput, hb⟩
  rw [runIn_bind_ok hrun, hrun']

/-- Placing errors makes no difference. -/
theorem Yields.placedAt {x : Eval α} (hx : Yields p x) (line : Option Int) :
    Yields p (placedAt line x) := by
  intro m
  obtain ⟨a, m₁, hrun, h⟩ := hx m
  exact ⟨a, m₁, runIn_placedAt_ok hrun line, h⟩

/-- Reporting exhaustion makes no difference. -/
theorem Yields.reportingExhaustion {x : Eval α} (hx : Yields p x) (line : Int) :
    Yields p (reportingExhaustion line x) := by
  intro m
  obtain ⟨a, m₁, hrun, h⟩ := hx m
  refine ⟨a, m₁, ?_, h⟩
  rw [runIn_reportingExhaustion, hrun]
  rfl

/-- A closure is put on record only. -/
theorem yields_closure {p : Value → Prop} {params : List Ident} {body : Ast.Block}
    {frame : FrameId} (h : p (.closure params body frame)) (line : Int) :
    Yields p (closure params body line frame) :=
  fun m => ⟨_, _, runIn_closure m params body line frame, rfl, rfl, h⟩

end Yields

variable (table : BuiltinTable) {depth : Nat} (frame : FrameId) {e : Ast.Expr}

/-- A literal has the number that it spells. -/
theorem yields_int {n : Int} (he : (Ast.Expr.int n 0).same e = true) :
    Yields (· = .int n) (expr table (depth + 1) frame e) := by
  cases e <;> simp only [Ast.Expr.same, beq_iff_eq, Bool.false_eq_true] at he
  subst he
  rw [expr.eq_def]
  refine Yields.placedAt (yields_pure ?_) _
  rfl

/-- The negation of a literal has the number below zero that it spells. -/
theorem yields_negation {n : Nat} (hn : (Value.int (.negSucc n)).spellable = true)
    (he : (Ast.Expr.unary (.known .negate) (.int (n + 1 : Nat) 0) 0).same e = true) :
    Yields (· = .int (.negSucc n)) (expr table (depth + 2) frame e) := by
  cases e <;> simp only [Ast.Expr.same, Bool.and_eq_true, beq_iff_eq, Bool.false_eq_true] at he
  obtain ⟨rfl, hoperand⟩ := he
  -- A numeral is at most the greatest integer, so its negation does not wrap around.
  have hwrap : Integer.wrap (-(n + 1 : Nat)) = .negSucc n := by
    simp only [Value.spellable, Bool.and_eq_true, decide_eq_true_eq] at hn
    exact Integer.wrap_eq_self (Int.le_trans (by decide) hn.1) hn.2
  rw [expr.eq_def]
  refine Yields.placedAt ((yields_int table frame hoperand).bind ?_) _
  rintro _ rfl
  exact yields_pure (congrArg Value.int hwrap)

mutual

/-- What the display form of a value spells has a copy of the value. -/
theorem yields_literal (v : Value) (hv : v.spellable = true) {e : Ast.Expr}
    (he : v.literal.same e = true) {depth : Nat} (hdepth : v.nesting + 2 ≤ depth) :
    Yields v.Copies (expr table depth frame e) := by
  -- The second level is for the numeral under a sign.
  obtain ⟨depth, rfl⟩ := Nat.exists_eq_add_of_le' (Nat.le_trans (Nat.le_add_left 2 _) hdepth)
  match v with
  | .int n =>
    have hn : Yields (· = .int n) (expr table (depth + 2) frame e) := by
      cases n with
      | ofNat n => exact yields_int table frame he
      | negSucc n => exact yields_negation table frame hv he
    refine hn.imp ?_
    rintro _ rfl
    exact .refl _
  | .bool b =>
    cases e <;> simp only [Value.literal, Ast.Expr.same, beq_iff_eq, Bool.false_eq_true] at he
    rw [expr.eq_def, he]
    exact (yields_pure (.refl _)).placedAt _
  | .array elements =>
    cases e <;> simp only [Value.literal, Ast.Expr.same, Bool.false_eq_true] at he
    rw [Value.spellable] at hv
    rw [Value.nesting] at hdepth
    have helements := yields_literals elements hv he (Nat.le_of_succ_le_succ hdepth)
    rw [expr.eq_def]
    refine Yields.placedAt (helements.bind fun ws hws => yields_pure ?_) _
    exact Value.copies_array hws
  | .closure params body captured =>
    cases e <;> simp only [Value.literal, Ast.Expr.same, Bool.and_eq_true, Bool.false_eq_true] at he
    rw [expr.eq_def]
    exact (yields_closure (Value.copies_closure he.1 he.2 captured frame) _).placedAt _
  | .null | .builtin _ =>
    rw [Value.spellable] at hv
    cases hv
termination_by structural v

/-- What the display forms of values spell has copies of the values. -/
theorem yields_literals (vs : List Value) (hvs : Value.spellableList vs = true)
    {es : List Ast.Expr} (hes : Ast.sameList (Value.literals vs) es = true) {depth : Nat}
    (hdepth : Value.nestingList vs + 2 ≤ depth) :
    Yields (List.Forall₂ Value.Copies vs) (es.mapM (expr table depth frame)) := by
  match vs, es, hes with
  | [], [], _ => exact yields_pure .nil
  | first :: others, e :: es, hes =>
    rw [Value.spellableList, Bool.and_eq_true] at hvs
    rw [Value.literals, Ast.sameList, Bool.and_eq_true] at hes
    rw [Value.nestingList] at hdepth
    have hfirst := yields_literal first hvs.1 hes.1 (show first.nesting + 2 ≤ depth by omega)
    have hothers :=
      yields_literals others hvs.2 hes.2 (show Value.nestingList others + 2 ≤ depth by omega)
    rw [List.mapM_cons]
    refine hfirst.bind fun w hw => hothers.bind fun ws hws => ?_
    exact yields_pure (.cons hw hws)
  | [], _ :: _, hes | _ :: _, [], hes =>
    simp [Value.literals, Ast.sameList] at hes
termination_by structural vs

end

/-- What the display form of a value spells, standing by itself, ends with a copy of the value. -/
theorem yields_standing {v : Value} (hv : v.spellable = true) (he : v.literal.same e = true)
    (hdepth : v.nesting + 3 ≤ depth) (line : Int) :
    Yields (fun c => v.Copies c.value) (stmt table depth frame (.expr e line)) := by
  obtain ⟨depth, rfl⟩ := Nat.exists_eq_add_of_le' (Nat.le_trans (Nat.le_add_left 1 _) hdepth)
  have hvalue : Yields (fun c => v.Copies c.value)
      (do return Completion.normal (← expr table depth frame e)) := by
    refine (yields_literal table frame v hv he (Nat.le_of_succ_le_succ hdepth)).bind ?_
    exact fun w hw => yields_pure hw
  rw [stmt.eq_def]
  refine Yields.placedAt ?_ _
  -- Only an `if` is executed in another way when it stands by itself.
  cases e with
  | cond condition consequence alternative line' =>
    rw [v.literal_same_cond] at he
    cases he
  | _ => exact hvalue

/-- The program that is read from the display form of a value has a copy of the value. -/
theorem yields_program {v : Value} (hv : v.spellable = true) (he : v.literal.same e = true)
    (hdepth : v.nesting + 3 ≤ depth) (line : Int) :
    Yields v.Copies (node table depth frame (.program ⟨[.expr e line]⟩)) := by
  have hstatements : Yields (fun c => v.Copies c.value)
      (statements (stmt table depth frame) [.expr e line]) := by
    refine (yields_standing table frame hv he hdepth line).bind fun c hc => ?_
    cases c <;> exact yields_pure hc
  refine Yields.reportingExhaustion (hstatements.bind ?_) _
  exact fun c hc => yields_pure hc

end Eval

namespace Value

/-- The values that are made of the integers of the language other than the least one, of booleans,
of functions that are written in accepted texts, and of arrays of such values. -/
inductive Written : Value → Prop
  | int {n : Int} : Integer.minValue < n → n ≤ Integer.maxValue → Written (int n)
  | bool (b : Bool) : Written (bool b)
  | array {elements : List Value} : (∀ v ∈ elements, Written v) → Written (array elements)
  | closure {reading : Depth} {source : String} {p : Ast.Program} {params : List Ident}
      {body : Ast.Block} (captured : FrameId) :
    parse reading source = .ok p → (params, body) ∈ p.functions →
    Written (closure params body captured)

/-- Values are spelled if each of them is. -/
theorem spellableList_eq_all (vs : List Value) : spellableList vs = vs.all spellable := by
  induction vs with
  | nil => rfl
  | cons first others ih => rw [spellableList, List.all_cons, ih]

/-- The display form of such a value is source text. -/
theorem Written.spellable {v : Value} (h : v.Written) : v.spellable = true := by
  induction h with
  | int hlower hupper =>
    simp only [Value.spellable, Bool.and_eq_true, decide_eq_true_eq]
    exact ⟨hlower, hupper⟩
  | bool => rfl
  | array _ ih => rwa [Value.spellable, spellableList_eq_all, List.all_eq_true]
  | @closure _ _ p _ _ _ hparse hmem =>
    have hfunctions :=
      Ast.functionsOfStatements_wellFormed p.statements (wellFormed_of_parse hparse)
    exact List.all_eq_true.mp hfunctions _ hmem

/-- The display form of a value that is made of integers, booleans, arrays and functions of accepted
texts is a program. Evaluating it in any frame of any state changes no frame and writes nothing, and
gives a value with the same display form, which is the same value unless there are closures in it.
For this it is enough that reading may go as deep as the text is long, and evaluation three levels
deeper than the arrays are nested. -/
theorem display_reads_back {v : Value} (hv : v.Written) :
    ∃ p, (∀ reading, .atMost (v.display.length + 1) ≤ reading →
        parse reading v.display = .ok p) ∧
      ∀ table depth frame m, v.nesting + 3 ≤ depth →
        ∃ w m', Eval.runIn m (Eval.node table depth frame (.program p)) = (.ok w, m') ∧
          m'.store = m.store ∧ m'.output = m.output ∧ w.display = v.display ∧
          ((∀ body captured, ¬v.Holds body captured) → w = v) := by
  obtain ⟨e, line, hparse, hsame⟩ := exists_parse_display hv.spellable
  refine ⟨⟨[.expr e line]⟩, fun reading hreading => ?_, fun table depth frame m hdepth => ?_⟩
  · rw [parse_of_length_lt hreading, hparse]
  · exact Eval.yields_program table frame hv.spellable hsame hdepth line m

/-- A function whose body returns a call with an argument below zero. -/
def returningCall : List Ident × Ast.Block :=
  ([⟨"x", 1⟩],
    .mk [.ret (.call (.ident "f" 1) [.ident "x" 1, .unary (.known .negate) (.int 2 1) 1] 1) 1] 1)

/-- An array of a number below zero, an array of a boolean and an array, and a closure. -/
def mixedArray : Value :=
  .array [.int (-9223372036854775807), .array [.bool true, .array []],
    .closure returningCall.1 returningCall.2 7]

/-- An array with a function from a text that has an arrow reads back. -/
theorem display_reads_back_mixedArray :
    mixedArray.Written ∧
      ∃ p, (∀ reading, .atMost (mixedArray.display.length + 1) ≤ reading →
          parse reading mixedArray.display = .ok p) ∧
        ∀ table depth frame m, mixedArray.nesting + 3 ≤ depth →
          ∃ w m', Eval.runIn m (Eval.node table depth frame (.program p)) = (.ok w, m') ∧
            m'.store = m.store ∧ m'.output = m.output ∧ w.display = mixedArray.display ∧
            ((∀ body captured, ¬mixedArray.Holds body captured) → w = mixedArray) := by
  have hparse : parse .unbounded "var g = |x| \x7breturn x -> f(-2)\x7d" =
      .ok ⟨[.var ⟨"g", 1⟩ (.function returningCall.1 returningCall.2 1) 1]⟩ := by
    have htree : Surface.parse .unbounded "var g = |x| \x7breturn x -> f(-2)\x7d" =
        .ok [.var ⟨"g", 1⟩ (.function [⟨"x", 1⟩] (.mk [.ret (.arrow (.ident "x" 1)
          (.call (.ident "f" 1) [.unary .negate (.integer "2" 1) 1] 1) 1) 1] 1) 1) 1] := by
      rw [Surface.parse_eq_unrolled 100]
      with_unfolding_all rfl
    rw [parse, htree]
    rfl
  have hclosure : (closure returningCall.1 returningCall.2 7).Written :=
    .closure 7 hparse (List.mem_cons_self ..)
  have hv : mixedArray.Written := by
    refine .array ?_
    simp only [List.forall_mem_cons, List.not_mem_nil, false_imp_iff, implies_true, and_true]
    refine ⟨.int (by decide) (by decide), .array ?_, hclosure⟩
    simp only [List.forall_mem_cons, List.not_mem_nil, false_imp_iff, implies_true, and_true]
    exact ⟨.bool true, .array (List.forall_mem_nil _)⟩
  exact ⟨hv, display_reads_back hv⟩

end Value

end EtherLang
