import EtherLang.Ast.Same
import EtherLang.Proofs.Ast.WellFormed
import EtherLang.Proofs.Surface.Completeness

/-!
# Rendering and reading back

The canonical text of a well-formed tree reads back as the same tree up to lines. The tokens of the
text are written down as a function of the tree. Scanning gives exactly these tokens, since whatever
stands behind a rendered expression ends its last word; and these tokens have a derivation, since
everything that is rendered without parentheses is a primary expression or a call. The derived
surface tree holds no arrow, so lowering it succeeds.
-/

namespace EtherLang.Ast

/-- The tokens of parameters with commas between them. -/
def tokensOfParams (line : Nat) : List Ident → List Token
  | [] => []
  | [last] => [wordToken line last.name]
  | first :: others =>
    wordToken line first.name :: symbolToken line ',' :: tokensOfParams line others

mutual

/-- The tokens of the canonical text of an expression on a line. -/
def Expr.tokens (line : Nat) : Expr → List Token
  | .ident name _ => [wordToken line name]
  | .int value _ => [⟨.integer, toString value, line⟩]
  | .bool value _ => [wordToken line (if value then "true" else "false")]
  | .unary (.known op) operand _ =>
    symbolToken line '(' ::
      (⟨op.tokenKind, op.symbol, line⟩ :: operand.tokens line ++ [symbolToken line ')'])
  | .binary (.known op) left right _ =>
    symbolToken line '(' ::
      (left.tokens line ++ ⟨op.tokenKind, op.symbol, line⟩ :: right.tokens line ++
        [symbolToken line ')'])
  | .function params body _ =>
    symbolToken line '|' :: (tokensOfParams line params ++ symbolToken line '|' :: body.tokens line)
  | .call callee args _ =>
    callee.tokens line ++ symbolToken line '(' ::
      (tokensOfList line args ++ [symbolToken line ')'])
  | .array elements _ =>
    symbolToken line '[' :: (tokensOfList line elements ++ [symbolToken line ']'])
  | .index array index _ =>
    symbolToken line '(' ::
      (array.tokens line ++ symbolToken line '[' :: (index.tokens line ++ [symbolToken line ']']) ++
        [symbolToken line ')'])
  | .cond condition consequence none _ =>
    wordToken line "if" :: (condition.tokens line ++ consequence.tokens line)
  | .cond condition consequence (some alternative) _ =>
    wordToken line "if" ::
      (condition.tokens line ++
        (consequence.tokens line ++ wordToken line "else" :: alternative.tokens line))
  | .unary (.unknown _) _ _ | .binary (.unknown _) _ _ _ | .misplaced _ | .foreign => []

/-- The tokens of expressions with commas between them. -/
def tokensOfList (line : Nat) : List Expr → List Token
  | [] => []
  | [last] => last.tokens line
  | first :: others => first.tokens line ++ symbolToken line ',' :: tokensOfList line others

/-- The tokens of a statement before its semicolon. -/
def Stmt.tokens (line : Nat) : Stmt → List Token
  | .var target value _ =>
    wordToken line "var" :: wordToken line target.name :: symbolToken line '=' :: value.tokens line
  | .ret value _ => wordToken line "return" :: value.tokens line
  | .expr value _ => value.tokens line
  | .block _ | .misplaced _ | .program _ => []

/-- The tokens of a block. -/
def Block.tokens (line : Nat) : Block → List Token
  | .mk statements _ =>
    symbolToken line '\x7b' :: (tokensOfStatements 0 line statements ++ [symbolToken line '\x7d'])

/-- The tokens of statements, each some lines below the one before it: none in a block. -/
def tokensOfStatements (step line : Nat) : List Stmt → List Token
  | [] => []
  | first :: others =>
    first.tokens line ++ symbolToken line ';' :: tokensOfStatements step (line + step) others

end

/-- A number of a well-formed tree is written as a run of digits. -/
theorem exists_nat_of_literal {value : Int}
    (h : (decide (0 ≤ value) && decide (value ≤ Integer.maxValue)) = true) :
    ∃ n : Nat, value = n ∧ (n : Int) ≤ Integer.maxValue ∧ toString value = n.repr := by
  simp only [Bool.and_eq_true, decide_eq_true_eq] at h
  obtain ⟨n, rfl⟩ := Int.eq_ofNat_of_zero_le h.1
  exact ⟨n, rfl, h.2, rfl⟩

/-- The digits of a number denote it. -/
theorem ofAsciiDigits_repr (n : Nat) : Text.ofAsciiDigits n.repr = n := by
  rw [Text.ofAsciiDigits, Nat.toList_repr, Text.ofDigits, List.foldl_map]
  exact Nat.ofDigitChars_ten_toDigits

/-- The canonical text of an expression does not begin with the second half of an operator. -/
theorem Expr.exists_render_head (e : Expr) (he : e.wellFormed = true) :
    ∃ c cs, e.render.toList = c :: cs ∧ c ≠ '>' ∧ c ≠ '=' := by
  match e with
  | .ident name _ =>
    have hword := (isName_iff.mp he).1
    unfold isWord at hword
    split at hword
    · cases hword
    · next c cs hlist =>
      rw [Bool.and_eq_true] at hword
      refine ⟨c, cs, hlist, ?_, ?_⟩ <;> rintro rfl <;> cases hword.1
  | .int value _ =>
    obtain ⟨n, rfl, -, hdigits⟩ := exists_nat_of_literal he
    match hlist : Nat.toDigits 10 n with
    | [] => exact absurd hlist Nat.toDigits_ne_nil
    | c :: cs =>
      have hc : c.isDigit = true :=
        Nat.isDigit_of_mem_toDigits (by decide) (by decide) (hlist ▸ List.mem_cons_self ..)
      refine ⟨c, cs, ?_, ?_, ?_⟩
      · rw [Expr.render, hdigits, Nat.toList_repr, hlist]
      · rintro rfl
        cases hc
      · rintro rfl
        cases hc
  | .bool true _ | .bool false _ => simp [Expr.render]
  | .unary _ _ _ | .binary _ _ _ _ | .index _ _ _ => simp [Expr.render]
  | .function _ _ _ | .array _ _ => simp [Expr.render]
  | .cond _ _ none _ | .cond _ _ (some _) _ => simp [Expr.render]
  | .call callee args _ =>
    rw [Expr.wellFormed, Bool.and_eq_true] at he
    obtain ⟨c, cs, hcs, hc⟩ := callee.exists_render_head he.1
    exact ⟨c, cs ++ ("(" ++ renderList args ++ ")").toList, by simp [Expr.render, hcs], hc⟩

section Scanning

variable {line : Nat} {rest : List Char}

/-- An operator with one operand is scanned by itself before an operand. -/
theorem scanFrom_unary (op : UnaryOp) {c : Char} {cs : List Char} (hc : c ≠ '>' ∧ c ≠ '=') :
    (scanFrom line (op.symbol.toList ++ c :: cs)).tokens =
      ⟨op.tokenKind, op.symbol, line⟩ :: (scanFrom line (c :: cs)).tokens := by
  cases op with
  | negate =>
    change (scanFrom line ('-' :: c :: cs)).tokens = _
    refine scanFrom_symbol (by decide) fun d hd => ?_
    cases hd
    simp [pairKind?, hc.1]
  | not =>
    change (scanFrom line ('!' :: c :: cs)).tokens = _
    refine scanFrom_symbol (by decide) fun d hd => ?_
    cases hd
    simp [pairKind?, hc.2]

/-- An operator with two operands and the blank behind it are scanned as the operator. -/
theorem scanFrom_binary (op : BinaryOp) :
    (scanFrom line (op.symbol.toList ++ ' ' :: rest)).tokens =
      ⟨op.tokenKind, op.symbol, line⟩ :: (scanFrom line rest).tokens := by
  rw [← @scanFrom_blank line rest]
  cases op with
  | add => exact scanFrom_plain (show isPlain '+' = true by decide)
  | mul => exact scanFrom_plain (show isPlain '*' = true by decide)
  | div => exact scanFrom_plain (show isPlain '/' = true by decide)
  | sub =>
    refine scanFrom_symbol (show isSymbol '-' = true by decide) fun d hd => ?_
    cases hd
    rfl
  | equal => exact scanFrom_pair (show isSymbol '=' = true by decide) rfl
  | notEqual => exact scanFrom_pair (show isSymbol '!' = true by decide) rfl

/-- Parameters are scanned as names with commas between them. -/
theorem scanFrom_params {params : List Ident} (hparams : params.all (isName ·.name) = true)
    (hrest : Breaks rest) :
    (scanFrom line ((renderParams params).toList ++ rest)).tokens =
      tokensOfParams line params ++ (scanFrom line rest).tokens := by
  induction params with
  | nil => rfl
  | cons first others ih =>
    rw [List.all_cons, Bool.and_eq_true] at hparams
    obtain ⟨hfirst, hothers⟩ := hparams
    have hword := (isName_iff.mp hfirst).1
    cases others with
    | nil =>
      have htext : renderParams [first] = first.name := by simp [renderParams]
      rw [htext, scanFrom_word hword hrest]
      rfl
    | cons second others =>
      have htext : (renderParams (first :: second :: others)).toList ++ rest =
          first.name.toList ++
            ',' :: ' ' :: ((renderParams (second :: others)).toList ++ rest) := by
        simp [renderParams, String.intercalate_cons_cons]
      rw [htext, scanFrom_word hword (breaks_cons rfl), scanFrom_plain (by decide), scanFrom_blank,
        ih hothers]
      rfl

end Scanning

mutual

/-- The canonical text of an expression is scanned as its tokens wherever a word may end. -/
theorem Expr.scanFrom_render (e : Expr) (he : e.wellFormed = true) (line : Nat)
    {rest : List Char} (hrest : Breaks rest) :
    (scanFrom line (e.render.toList ++ rest)).tokens =
      e.tokens line ++ (scanFrom line rest).tokens := by
  match e with
  | .ident name _ => exact scanFrom_word (isName_iff.mp he).1 hrest
  | .int value _ =>
    obtain ⟨n, rfl, -, hdigits⟩ := exists_nat_of_literal he
    have hall : n.repr.toList.all Char.isDigit = true := by
      rw [Nat.toList_repr, List.all_eq_true]
      intro c hc
      exact Nat.isDigit_of_mem_toDigits (by decide) (by decide) hc
    rw [Expr.render, Expr.tokens, hdigits]
    exact scanFrom_digits (by rw [Nat.toList_repr]; exact Nat.toDigits_ne_nil) hall hrest
  | .bool true _ => exact scanFrom_word (show isWord "true" = true by decide) hrest
  | .bool false _ => exact scanFrom_word (show isWord "false" = true by decide) hrest
  | .unary (.known op) operand l =>
    rw [Expr.wellFormed] at he
    obtain ⟨c, cs, hcs, hc⟩ := operand.exists_render_head he
    have htext : (Expr.unary (.known op) operand l).render.toList ++ rest =
        '(' :: (op.symbol.toList ++ (operand.render.toList ++ ')' :: rest)) := by
      simp [Expr.render, Spelled.symbol]
    have hop : (scanFrom line (op.symbol.toList ++ (operand.render.toList ++ ')' :: rest))).tokens =
        ⟨op.tokenKind, op.symbol, line⟩ ::
          (scanFrom line (operand.render.toList ++ ')' :: rest)).tokens := by
      rw [hcs]
      exact scanFrom_unary op hc
    rw [htext, scanFrom_plain (by decide), hop, operand.scanFrom_render he line (breaks_cons rfl),
      scanFrom_plain (by decide)]
    simp [Expr.tokens]
  | .binary (.known op) left right l =>
    rw [Expr.wellFormed, Bool.and_eq_true] at he
    have htext : (Expr.binary (.known op) left right l).render.toList ++ rest =
        '(' :: (left.render.toList ++ ' ' ::
          (op.symbol.toList ++ ' ' :: (right.render.toList ++ ')' :: rest))) := by
      simp [Expr.render, Spelled.symbol]
    rw [htext, scanFrom_plain (by decide), left.scanFrom_render he.1 line (breaks_cons rfl),
      scanFrom_blank, scanFrom_binary, right.scanFrom_render he.2 line (breaks_cons rfl),
      scanFrom_plain (by decide)]
    simp [Expr.tokens]
  | .function params body l =>
    rw [Expr.wellFormed, Bool.and_eq_true] at he
    have htext : (Expr.function params body l).render.toList ++ rest =
        '|' :: ((renderParams params).toList ++ '|' :: ' ' :: (body.render.toList ++ rest)) := by
      simp [Expr.render]
    rw [htext, scanFrom_plain (by decide), scanFrom_params he.1 (breaks_cons rfl),
      scanFrom_plain (by decide), scanFrom_blank, body.scanFrom_render he.2 line]
    simp [Expr.tokens]
  | .call callee args l =>
    rw [Expr.wellFormed, Bool.and_eq_true] at he
    have htext : (Expr.call callee args l).render.toList ++ rest =
        callee.render.toList ++ '(' :: ((renderList args).toList ++ ')' :: rest) := by
      simp [Expr.render]
    rw [htext, callee.scanFrom_render he.1 line (breaks_cons rfl), scanFrom_plain (by decide),
      scanFrom_renderList args he.2 line (breaks_cons rfl), scanFrom_plain (by decide)]
    simp [Expr.tokens]
  | .array elements l =>
    rw [Expr.wellFormed] at he
    have htext : (Expr.array elements l).render.toList ++ rest =
        '[' :: ((renderList elements).toList ++ ']' :: rest) := by
      simp [Expr.render]
    rw [htext, scanFrom_plain (by decide), scanFrom_renderList elements he line (breaks_cons rfl),
      scanFrom_plain (by decide)]
    simp [Expr.tokens]
  | .index array index l =>
    rw [Expr.wellFormed, Bool.and_eq_true] at he
    have htext : (Expr.index array index l).render.toList ++ rest =
        '(' :: (array.render.toList ++ '[' :: (index.render.toList ++ ']' :: ')' :: rest)) := by
      simp [Expr.render]
    rw [htext, scanFrom_plain (by decide), array.scanFrom_render he.1 line (breaks_cons rfl),
      scanFrom_plain (by decide), index.scanFrom_render he.2 line (breaks_cons rfl),
      scanFrom_plain (by decide), scanFrom_plain (by decide)]
    simp [Expr.tokens]
  | .cond condition consequence none l =>
    rw [Expr.wellFormed, Bool.and_eq_true] at he
    have htext : (Expr.cond condition consequence none l).render.toList ++ rest =
        "if".toList ++ ' ' ::
          (condition.render.toList ++ ' ' :: (consequence.render.toList ++ rest)) := by
      simp [Expr.render]
    rw [htext, scanFrom_word_blank (by decide),
      condition.scanFrom_render he.1 line (breaks_cons rfl), scanFrom_blank,
      consequence.scanFrom_render he.2 line]
    simp [Expr.tokens]
  | .cond condition consequence (some alternative) l =>
    rw [Expr.wellFormed, Bool.and_eq_true, Bool.and_eq_true] at he
    have htext : (Expr.cond condition consequence (some alternative) l).render.toList ++ rest =
        "if".toList ++ ' ' ::
          (condition.render.toList ++ ' ' ::
            (consequence.render.toList ++ ' ' ::
              ("else".toList ++ ' ' :: (alternative.render.toList ++ rest)))) := by
      simp [Expr.render]
    rw [htext, scanFrom_word_blank (by decide),
      condition.scanFrom_render he.1.1 line (breaks_cons rfl), scanFrom_blank,
      consequence.scanFrom_render he.1.2 line, scanFrom_blank, scanFrom_word_blank (by decide),
      alternative.scanFrom_render he.2 line]
    simp [Expr.tokens]
  | .unary (.unknown _) _ _ | .binary (.unknown _) _ _ _ | .misplaced _ | .foreign => cases he
termination_by structural e

/-- The canonical texts of expressions are scanned as their tokens. -/
theorem scanFrom_renderList (es : List Expr) (hes : wellFormedList es = true) (line : Nat)
    {rest : List Char} (hrest : Breaks rest) :
    (scanFrom line ((renderList es).toList ++ rest)).tokens =
      tokensOfList line es ++ (scanFrom line rest).tokens := by
  match es with
  | [] => rfl
  | [last] =>
    rw [wellFormedList, Bool.and_eq_true] at hes
    exact last.scanFrom_render hes.1 line hrest
  | first :: second :: others =>
    rw [wellFormedList, Bool.and_eq_true] at hes
    have htext : (renderList (first :: second :: others)).toList ++ rest =
        first.render.toList ++ ',' :: ' ' :: ((renderList (second :: others)).toList ++ rest) := by
      simp [renderList]
    rw [htext, first.scanFrom_render hes.1 line (breaks_cons rfl), scanFrom_plain (by decide),
      scanFrom_blank, scanFrom_renderList (second :: others) hes.2 line hrest]
    simp [tokensOfList]
termination_by structural es

/-- The canonical text of a statement is scanned as its tokens and a semicolon. -/
theorem Stmt.scanFrom_render (s : Stmt) (hs : s.wellFormed = true) (line : Nat)
    {rest : List Char} :
    (scanFrom line (s.render.toList ++ rest)).tokens =
      s.tokens line ++ symbolToken line ';' :: (scanFrom line rest).tokens := by
  match s with
  | .var target value l =>
    rw [Stmt.wellFormed, Bool.and_eq_true] at hs
    have htext : (Stmt.var target value l).render.toList ++ rest =
        "var".toList ++ ' ' :: (target.name.toList ++ ' ' :: '=' :: ' ' ::
          (value.render.toList ++ ';' :: rest)) := by
      simp [Stmt.render]
    have hequals : ∀ d ∈ (' ' :: (value.render.toList ++ ';' :: rest)).head?,
        pairKind? '=' d = none := by
      intro d hd
      cases hd
      rfl
    rw [htext, scanFrom_word_blank (by decide), scanFrom_word_blank (isName_iff.mp hs.1).1,
      scanFrom_symbol (by decide) hequals, scanFrom_blank,
      value.scanFrom_render hs.2 line (breaks_cons rfl), scanFrom_plain (by decide)]
    simp [Stmt.tokens]
  | .ret value l =>
    rw [Stmt.wellFormed] at hs
    have htext : (Stmt.ret value l).render.toList ++ rest =
        "return".toList ++ ' ' :: (value.render.toList ++ ';' :: rest) := by
      simp [Stmt.render]
    rw [htext, scanFrom_word_blank (by decide), value.scanFrom_render hs line (breaks_cons rfl),
      scanFrom_plain (by decide)]
    simp [Stmt.tokens]
  | .expr value l =>
    rw [Stmt.wellFormed] at hs
    have htext : (Stmt.expr value l).render.toList ++ rest =
        value.render.toList ++ ';' :: rest := by
      simp [Stmt.render]
    rw [htext, value.scanFrom_render hs line (breaks_cons rfl), scanFrom_plain (by decide)]
    simp [Stmt.tokens]
  | .block _ | .misplaced _ | .program _ => cases hs
termination_by structural s

/-- The canonical text of a block is scanned as its tokens, whatever stands behind it. -/
theorem Block.scanFrom_render (b : Block) (hb : b.wellFormed = true) (line : Nat)
    {rest : List Char} :
    (scanFrom line (b.render.toList ++ rest)).tokens =
      b.tokens line ++ (scanFrom line rest).tokens := by
  match b with
  | .mk statements l =>
    rw [Block.wellFormed] at hb
    have htext : (Block.mk statements l).render.toList ++ rest =
        '\x7b' :: ((renderStatements statements).toList ++ '\x7d' :: rest) := by
      simp [Block.render]
    rw [htext, scanFrom_plain (by decide), scanFrom_renderStatements statements hb line,
      scanFrom_plain (by decide)]
    simp [Block.tokens]
termination_by structural b

/-- The canonical texts of statements are scanned as their tokens. -/
theorem scanFrom_renderStatements (ss : List Stmt) (hss : wellFormedStatements ss = true)
    (line : Nat) {rest : List Char} :
    (scanFrom line ((renderStatements ss).toList ++ rest)).tokens =
      tokensOfStatements 0 line ss ++ (scanFrom line rest).tokens := by
  match ss with
  | [] => rfl
  | first :: others =>
    rw [wellFormedStatements, Bool.and_eq_true] at hss
    have htext : (renderStatements (first :: others)).toList ++ rest =
        first.render.toList ++ ((renderStatements others).toList ++ rest) := by
      simp [renderStatements]
    rw [htext, first.scanFrom_render hss.1 line, scanFrom_renderStatements others hss.2 line]
    simp [tokensOfStatements]
termination_by structural ss

end

section Deriving

open Surface (Stratum)
open Surface.Grammar Surface.Parser

/-- The tokens of names with commas between them derive parameters of the same names. -/
theorem exists_params (params : List Ident) (hparams : params.all (isName ·.name) = true)
    (line : Nat) :
    ∃ names, Params (tokensOfParams line params) names ∧ sameNames params names = true := by
  suffices h : params ≠ [] → ∃ names, Names (tokensOfParams line params) names ∧
      sameNames params names = true by
    cases params with
    | nil => exact ⟨[], .none, rfl⟩
    | cons first others =>
      obtain ⟨names, hnames, hsame⟩ := h (List.cons_ne_nil _ _)
      exact ⟨names, .some hnames, hsame⟩
  intro hne
  induction params with
  | nil => exact absurd rfl hne
  | cons first others ih =>
    rw [List.all_cons, Bool.and_eq_true] at hparams
    obtain ⟨hfirst, hothers⟩ := hparams
    have hkind : (wordToken line first.name).kind = .ident := (isName_iff.mp hfirst).2
    cases others with
    | nil => exact ⟨_, .last hkind, by simp [sameNames, wordToken]⟩
    | cons second others =>
      obtain ⟨names, hnames, hsame⟩ := ih hothers (List.cons_ne_nil _ _)
      refine ⟨_, .cons hkind rfl hnames, ?_⟩
      simp only [sameNames, beq_iff_eq] at hsame ⊢
      exact congrArg (first.name :: ·) hsame

/-- The tokens derive an expression in the stratum that is lowered to the same tree. -/
def Expr.ReadBack (e : Expr) (stratum : Stratum) (ts : List Token) : Prop :=
  ∃ s e', Derives stratum ts s ∧ s.desugar .unbounded = .ok e' ∧ e.same e' = true

/-- What is read back in a stratum is read back in every looser one. -/
theorem Expr.ReadBack.of_binding_le {e : Expr} {stratum stratum' : Stratum} {ts : List Token}
    (h : e.ReadBack stratum ts) (hle : stratum'.binding ≤ stratum.binding) :
    e.ReadBack stratum' ts := by
  obtain ⟨s, e', hs, he⟩ := h
  exact ⟨s, e', hs.of_binding_le hle, he⟩

/-- What is read back in a stratum is read back in the loosest one. -/
theorem Expr.ReadBack.arrow {e : Expr} {stratum : Stratum} {ts : List Token}
    (h : e.ReadBack stratum ts) : e.ReadBack .arrow ts :=
  h.of_binding_le (by cases stratum <;> decide)

/-- Parentheses do not change what is read back. -/
theorem Expr.ReadBack.group {e : Expr} {stratum : Stratum} {ts : List Token}
    (h : e.ReadBack stratum ts) (line : Nat) :
    e.ReadBack .trailer (symbolToken line '(' :: (ts ++ [symbolToken line ')'])) := by
  obtain ⟨s, e', hs, he⟩ := h.arrow
  exact ⟨s, e', .climb (by decide) (.group rfl hs rfl), he⟩

/-- The tokens derive expressions that are lowered to the same trees. -/
def ReadBackList (es : List Expr) (ts : List Token) : Prop :=
  ∃ ss es', Args ts ss ∧ Surface.desugarList .unbounded ss = .ok es' ∧ sameList es es' = true

/-- The tokens derive a block that is lowered to the same tree. -/
def Block.ReadBack (b : Block) (ts : List Token) : Prop :=
  ∃ u b', Braces ts u ∧ u.desugar .unbounded = .ok b' ∧ b.same b' = true

section ReadBack

variable {ts us bs ds : List Token} {line : Nat} {l : Int}

/-- An operator is read back with its operand. -/
theorem Expr.ReadBack.unary (op : UnaryOp) {operand : Expr} (h : operand.ReadBack .trailer ts) :
    (Expr.unary (.known op) operand l).ReadBack .unary
      (⟨op.tokenKind, op.symbol, line⟩ :: ts) := by
  obtain ⟨s, operand', hs, hdesugar, hsame⟩ := h
  refine ⟨.unary op s line, .unary (.known op) operand' line, .unary op rfl ?_, ?_, ?_⟩
  · exact hs.of_binding_le (by decide)
  · rw [Surface.Expr.desugar]
    simp only [Depth.down?, hdesugar, ok_bind]
    rfl
  · simp [Expr.same, hsame]

/-- An operator is read back with its operands. -/
theorem Expr.ReadBack.binary (op : BinaryOp) {left right : Expr} (hl : left.ReadBack .trailer ts)
    (hr : right.ReadBack .trailer us) :
    (Expr.binary (.known op) left right l).ReadBack (Surface.stratumOf op)
      (ts ++ ⟨op.tokenKind, op.symbol, line⟩ :: us) := by
  obtain ⟨s, left', hs, hleft, hsame⟩ := hl
  obtain ⟨u, right', hu, hright, hsame'⟩ := hr
  have hle : (Surface.stratumOf op).binding ≤ Stratum.trailer.binding ∧
      (Surface.stratumOf op).tighter.binding ≤ Stratum.trailer.binding := by
    cases op <;> decide
  refine ⟨.binary op s u line, .binary (.known op) left' right' line, ?_, ?_, ?_⟩
  · exact .binary op (hs.of_binding_le hle.1) rfl (hu.of_binding_le hle.2)
  · rw [Surface.Expr.desugar]
    simp only [Depth.down?, hleft, hright, ok_bind]
    rfl
  · simp [Expr.same, hsame, hsame']

/-- A function is read back with its parameters and its body. -/
theorem Expr.ReadBack.function {params : List Ident} (hparams : params.all (isName ·.name) = true)
    {body : Block} (h : body.ReadBack bs) :
    (Expr.function params body l).ReadBack .trailer
      (symbolToken line '|' :: (tokensOfParams line params ++ symbolToken line '|' :: bs)) := by
  obtain ⟨names, hnames, hsame⟩ := exists_params params hparams line
  obtain ⟨b, body', hb, hbody, hsame'⟩ := h
  refine ⟨.function names b line, .function names body' line, .climb (by decide) ?_, ?_, ?_⟩
  · exact .function rfl hnames rfl hb
  · rw [Surface.Expr.desugar]
    simp only [Depth.down?, hbody, ok_bind]
    rfl
  · simp [Expr.same, hsame, hsame']

/-- A call is read back with its arguments. -/
theorem Expr.ReadBack.call {callee : Expr} {args : List Expr} (h : callee.ReadBack .trailer ts)
    (hargs : ReadBackList args us) :
    (Expr.call callee args l).ReadBack .trailer
      (ts ++ symbolToken line '(' :: (us ++ [symbolToken line ')'])) := by
  obtain ⟨s, callee', hs, hcallee, hsame⟩ := h
  obtain ⟨ss, args', hss, hargs, hsame'⟩ := hargs
  refine ⟨.call s ss line, .call callee' args' line, .call hs rfl hss rfl, ?_, ?_⟩
  · rw [Surface.Expr.desugar]
    simp only [Depth.down?, hcallee, hargs, ok_bind]
    rfl
  · simp [Expr.same, hsame, hsame']

/-- An array is read back with its elements. -/
theorem Expr.ReadBack.array {elements : List Expr} (h : ReadBackList elements ts) :
    (Expr.array elements l).ReadBack .trailer
      (symbolToken line '[' :: (ts ++ [symbolToken line ']'])) := by
  obtain ⟨ss, elements', hss, helements, hsame⟩ := h
  refine ⟨.array ss line, .array elements' line, .climb (by decide) ?_, ?_, ?_⟩
  · exact .array rfl hss rfl
  · rw [Surface.Expr.desugar]
    simp only [Depth.down?, helements, ok_bind]
    rfl
  · simp [Expr.same, hsame]

/-- An element of an array is read back with its position. -/
theorem Expr.ReadBack.index {array index : Expr} (h : array.ReadBack .trailer ts)
    (hindex : index.ReadBack .trailer us) :
    (Expr.index array index l).ReadBack .trailer
      (ts ++ symbolToken line '[' :: (us ++ [symbolToken line ']'])) := by
  obtain ⟨s, array', hs, harray, hsame⟩ := h
  obtain ⟨u, index', hu, hindex, hsame'⟩ := hindex
  refine ⟨.index s u line, .index array' index' line, ?_, ?_, ?_⟩
  · exact .index hs rfl (hu.of_binding_le (by decide)) rfl
  · rw [Surface.Expr.desugar]
    simp only [Depth.down?, harray, hindex, ok_bind]
    rfl
  · simp [Expr.same, hsame, hsame']

/-- An `if` is read back with its condition and its block. -/
theorem Expr.ReadBack.cond {condition : Expr} {consequence : Block}
    (h : condition.ReadBack .trailer ts) (hconsequence : consequence.ReadBack bs) :
    (Expr.cond condition consequence none l).ReadBack .trailer
      (wordToken line "if" :: (ts ++ bs)) := by
  obtain ⟨s, condition', hs, hcondition, hsame⟩ := h
  obtain ⟨b, consequence', hb, hconsequence, hsame'⟩ := hconsequence
  refine ⟨.cond s b none line, .cond condition' consequence' none line, .climb (by decide) ?_,
    ?_, ?_⟩
  · exact .cond rfl (hs.of_binding_le (by decide)) hb
  · rw [Surface.Expr.desugar]
    simp only [Depth.down?, hcondition, hconsequence, ok_bind]
    rfl
  · simp [Expr.same, hsame, hsame']

/-- An `if` with an `else` is read back with both of its blocks. -/
theorem Expr.ReadBack.condElse {condition : Expr} {consequence alternative : Block}
    (h : condition.ReadBack .trailer ts) (hconsequence : consequence.ReadBack bs)
    (halternative : alternative.ReadBack ds) :
    (Expr.cond condition consequence (some alternative) l).ReadBack .trailer
      (wordToken line "if" :: (ts ++ (bs ++ wordToken line "else" :: ds))) := by
  obtain ⟨s, condition', hs, hcondition, hsame⟩ := h
  obtain ⟨b, consequence', hb, hconsequence, hsame'⟩ := hconsequence
  obtain ⟨d, alternative', hd, halternative, hsame''⟩ := halternative
  refine ⟨.cond s b (some d) line, .cond condition' consequence' (some alternative') line,
    .climb (by decide) ?_, ?_, ?_⟩
  · exact .condElse rfl (hs.of_binding_le (by decide)) hb rfl hd
  · rw [Surface.Expr.desugar]
    simp only [Depth.down?, hcondition, hconsequence, halternative, ok_bind]
    rfl
  · simp [Expr.same, hsame, hsame', hsame'']

end ReadBack

/-- The tokens of some expressions are not the tokens of no expression. -/
theorem items_of_args {ts : List Token} {ss : List Surface.Expr} {first : Expr}
    {others es : List Expr} (h : Args ts ss)
    (hss : Surface.desugarList .unbounded ss = .ok es)
    (hsame : sameList (first :: others) es = true) : Items ts ss := by
  cases h with
  | none =>
    cases hss
    simp [sameList] at hsame
  | some h => exact h

/-- An expression by itself is read back in a list. -/
theorem Expr.ReadBack.last {e : Expr} {stratum : Stratum} {ts : List Token}
    (h : e.ReadBack stratum ts) : ReadBackList [e] ts := by
  obtain ⟨s, e', hs, he, hsame⟩ := h.arrow
  refine ⟨[s], [e'], .some (.last hs), ?_, ?_⟩
  · simp only [Surface.desugarList, he, ok_bind]
    rfl
  · simp [sameList, hsame]

/-- An expression is read back in a list before others. -/
theorem Expr.ReadBack.cons {e second : Expr} {others : List Expr} {stratum : Stratum}
    {ts us : List Token} (h : e.ReadBack stratum ts) (hothers : ReadBackList (second :: others) us)
    (line : Nat) :
    ReadBackList (e :: second :: others) (ts ++ symbolToken line ',' :: us) := by
  obtain ⟨s, e', hs, he, hsame⟩ := h.arrow
  obtain ⟨ss, others', hss, hothers, hsame'⟩ := hothers
  refine ⟨s :: ss, e' :: others', .some ?_, ?_, ?_⟩
  · exact .cons hs rfl (items_of_args hss hothers hsame')
  · simp only [Surface.desugarList, he, hothers, ok_bind]
    rfl
  · rw [sameList, hsame, hsame']
    rfl

mutual

/-- The tokens of a well-formed expression are read back as a trailer. -/
theorem Expr.readBack (e : Expr) (he : e.wellFormed = true) (line : Nat) :
    e.ReadBack .trailer (e.tokens line) := by
  match e with
  | .ident name _ =>
    refine ⟨.ident name line, .ident name line, .climb (by decide) ?_, rfl, ?_⟩
    · exact .ident (isName_iff.mp he).2
    · simp [Expr.same]
  | .int value _ =>
    obtain ⟨n, rfl, hn, hdigits⟩ := exists_nat_of_literal he
    have hvalue := ofAsciiDigits_repr n
    rw [Expr.tokens, hdigits]
    refine ⟨.integer n.repr line, .int n line, .climb (by decide) ?_, ?_, ?_⟩
    · exact .integer (t := ⟨.integer, n.repr, line⟩) rfl (by rw [hvalue]; exact hn)
    · change Except.ok (Expr.int (Text.ofAsciiDigits n.repr) line) = _
      rw [hvalue]
    · simp [Expr.same]
  | .bool true _ =>
    refine ⟨.boolean true line, .bool true line, .climb (by decide) (.kwTrue rfl), rfl, ?_⟩
    simp [Expr.same]
  | .bool false _ =>
    refine ⟨.boolean false line, .bool false line, .climb (by decide) (.kwFalse rfl), rfl, ?_⟩
    simp [Expr.same]
  | .unary (.known op) operand l =>
    rw [Expr.wellFormed] at he
    exact (Expr.ReadBack.unary op (operand.readBack he line)).group line
  | .binary (.known op) left right l =>
    rw [Expr.wellFormed, Bool.and_eq_true] at he
    exact (Expr.ReadBack.binary op (left.readBack he.1 line) (right.readBack he.2 line)).group line
  | .function params body l =>
    rw [Expr.wellFormed, Bool.and_eq_true] at he
    exact .function he.1 (body.readBack he.2 line)
  | .call callee args l =>
    rw [Expr.wellFormed, Bool.and_eq_true] at he
    exact (callee.readBack he.1 line).call (readBack_list args he.2 line)
  | .array elements l =>
    rw [Expr.wellFormed] at he
    exact .array (readBack_list elements he line)
  | .index array index l =>
    rw [Expr.wellFormed, Bool.and_eq_true] at he
    exact ((array.readBack he.1 line).index (index.readBack he.2 line)).group line
  | .cond condition consequence none l =>
    rw [Expr.wellFormed, Bool.and_eq_true] at he
    exact (condition.readBack he.1 line).cond (consequence.readBack he.2 line)
  | .cond condition consequence (some alternative) l =>
    rw [Expr.wellFormed, Bool.and_eq_true, Bool.and_eq_true] at he
    exact (condition.readBack he.1.1 line).condElse (consequence.readBack he.1.2 line)
      (alternative.readBack he.2 line)
  | .unary (.unknown _) _ _ | .binary (.unknown _) _ _ _ | .misplaced _ | .foreign => cases he
termination_by structural e

/-- The tokens of well-formed expressions are read back. -/
theorem readBack_list (es : List Expr) (hes : wellFormedList es = true) (line : Nat) :
    ReadBackList es (tokensOfList line es) := by
  match es with
  | [] => exact ⟨[], [], .none, rfl, by simp [sameList]⟩
  | [last] =>
    rw [wellFormedList, Bool.and_eq_true] at hes
    exact (last.readBack hes.1 line).last
  | first :: second :: others =>
    rw [wellFormedList, Bool.and_eq_true] at hes
    exact (first.readBack hes.1 line).cons (readBack_list (second :: others) hes.2 line) line
termination_by structural es

/-- The tokens of a well-formed statement are read back. -/
theorem Stmt.readBack (s : Stmt) (hs : s.wellFormed = true) (line : Nat) :
    ∃ u s', Statement (s.tokens line) u ∧ u.desugar .unbounded = .ok s' ∧ s.same s' = true := by
  match s with
  | .var target value l =>
    rw [Stmt.wellFormed, Bool.and_eq_true] at hs
    obtain ⟨e, value', he, hvalue, hsame⟩ := value.readBack hs.2 line
    refine ⟨.var ⟨target.name, line⟩ e line, .var ⟨target.name, line⟩ value' line, ?_, ?_, ?_⟩
    · exact .var rfl (isName_iff.mp hs.1).2 rfl (he.of_binding_le (by decide))
    · simp only [Surface.Stmt.desugar, hvalue, ok_bind]
      rfl
    · simp [Stmt.same, hsame]
  | .ret value l =>
    rw [Stmt.wellFormed] at hs
    obtain ⟨e, value', he, hvalue, hsame⟩ := value.readBack hs line
    refine ⟨.ret e line, .ret value' line, .ret rfl (he.of_binding_le (by decide)), ?_, ?_⟩
    · simp only [Surface.Stmt.desugar, hvalue, ok_bind]
      rfl
    · simp [Stmt.same, hsame]
  | .expr value l =>
    rw [Stmt.wellFormed] at hs
    obtain ⟨e, value', he, hvalue, hsame⟩ := value.readBack hs line
    obtain ⟨t, us, heq, -⟩ := he.exists_head
    refine ⟨.expr e t.line, .expr value' t.line, ?_, ?_, ?_⟩
    · rw [Stmt.tokens, heq]
      exact .expr (heq ▸ he.of_binding_le (by decide))
    · simp only [Surface.Stmt.desugar, hvalue, ok_bind]
      rfl
    · simp [Stmt.same, hsame]
  | .block _ | .misplaced _ | .program _ => cases hs
termination_by structural s

/-- The tokens of a well-formed block are read back. -/
theorem Block.readBack (b : Block) (hb : b.wellFormed = true) (line : Nat) :
    b.ReadBack (b.tokens line) := by
  match b with
  | .mk statements l =>
    rw [Block.wellFormed] at hb
    obtain ⟨ss, statements', hss, hstatements, hsame⟩ := readBack_statements statements hb 0 line
    refine ⟨.mk ss line, .mk statements' line, .mk rfl hss rfl, ?_, ?_⟩
    · simp only [Surface.Block.desugar, hstatements, ok_bind]
      rfl
    · simp [Block.same, hsame]
termination_by structural b

/-- The tokens of well-formed statements are read back. -/
theorem readBack_statements (ss : List Stmt) (hss : wellFormedStatements ss = true)
    (step line : Nat) :
    ∃ us ss', Statements (tokensOfStatements step line ss) us ∧
      Surface.desugarStatements .unbounded us = .ok ss' ∧ sameStatements ss ss' = true := by
  match ss with
  | [] => exact ⟨[], [], .nil, rfl, by simp [sameStatements]⟩
  | first :: others =>
    rw [wellFormedStatements, Bool.and_eq_true] at hss
    obtain ⟨u, first', hu, hfirst, hsame⟩ := first.readBack hss.1 line
    obtain ⟨us, others', hus, hothers, hsame'⟩ :=
      readBack_statements others hss.2 step (line + step)
    refine ⟨u :: us, first' :: others', .cons hu rfl hus, ?_, ?_⟩
    · simp only [Surface.desugarStatements, hfirst, hothers, ok_bind]
      rfl
    · simp [sameStatements, hsame, hsame']
termination_by structural ss

end

/-- A word is no numeral. -/
theorem convertible_wordToken (line : Nat) (word : String) :
    Convertible (wordToken line word) := by
  intro h
  simp only [wordToken, wordKind] at h
  split at h <;> cases h

/-- A symbol is no numeral. -/
theorem convertible_symbolToken (line : Nat) (c : Char) : Convertible (symbolToken line c) := by
  intro h
  simp only [symbolToken, charKind] at h
  split at h <;> cases h

/-- An operator with one operand is no numeral. -/
theorem convertible_unaryOp (op : UnaryOp) (text : String) (line : Nat) :
    Convertible ⟨op.tokenKind, text, line⟩ := by
  cases op <;> exact nofun

/-- An operator with two operands is no numeral. -/
theorem convertible_binaryOp (op : BinaryOp) (text : String) (line : Nat) :
    Convertible ⟨op.tokenKind, text, line⟩ := by
  cases op <;> exact nofun

/-- The numeral of an integer of the language is short. -/
theorem convertible_repr {n : Nat} (hn : (n : Int) ≤ Integer.maxValue) (line : Nat) :
    Convertible ⟨.integer, n.repr, line⟩ := by
  intro _
  have hlt : n < 10 ^ 19 := by
    simp only [Integer.maxValue] at hn
    omega
  have hlength : n.repr.length ≤ 19 := (Nat.length_repr_le_iff (by decide)).mpr hlt
  exact Nat.le_trans hlength (by decide)

/-- The tokens of parameters hold no numeral. -/
theorem convertible_params (params : List Ident) (line : Nat) :
    Throughout Convertible (tokensOfParams line params) := by
  fun_induction tokensOfParams line params with
  | case1 => simp
  | case2 => simp [convertible_wordToken]
  | case3 first others _ ih => simp [convertible_wordToken, convertible_symbolToken, ih]

mutual

/-- The numerals of a well-formed expression are short. -/
theorem Expr.convertible (e : Expr) (he : e.wellFormed = true) (line : Nat) :
    Throughout Convertible (e.tokens line) := by
  match e with
  | .ident name _ => simp [Expr.tokens, convertible_wordToken]
  | .int value _ =>
    obtain ⟨n, rfl, hn, hdigits⟩ := exists_nat_of_literal he
    rw [Expr.tokens, hdigits]
    simpa using convertible_repr hn line
  | .bool value _ => simp [Expr.tokens, convertible_wordToken]
  | .unary (.known op) operand _ =>
    rw [Expr.wellFormed] at he
    have hoperand := operand.convertible he line
    simp [Expr.tokens, convertible_symbolToken, convertible_unaryOp, hoperand]
  | .binary (.known op) left right _ =>
    rw [Expr.wellFormed, Bool.and_eq_true] at he
    have hleft := left.convertible he.1 line
    have hright := right.convertible he.2 line
    simp [Expr.tokens, convertible_symbolToken, convertible_binaryOp, hleft, hright]
  | .function params body _ =>
    rw [Expr.wellFormed, Bool.and_eq_true] at he
    have hbody := body.convertible he.2 line
    simp [Expr.tokens, convertible_symbolToken, convertible_params, hbody]
  | .call callee args _ =>
    rw [Expr.wellFormed, Bool.and_eq_true] at he
    have hcallee := callee.convertible he.1 line
    have hargs := convertible_list args he.2 line
    simp [Expr.tokens, convertible_symbolToken, hcallee, hargs]
  | .array elements _ =>
    rw [Expr.wellFormed] at he
    have helements := convertible_list elements he line
    simp [Expr.tokens, convertible_symbolToken, helements]
  | .index array index _ =>
    rw [Expr.wellFormed, Bool.and_eq_true] at he
    have harray := array.convertible he.1 line
    have hindex := index.convertible he.2 line
    simp [Expr.tokens, convertible_symbolToken, harray, hindex]
  | .cond condition consequence none _ =>
    rw [Expr.wellFormed, Bool.and_eq_true] at he
    have hcondition := condition.convertible he.1 line
    have hconsequence := consequence.convertible he.2 line
    simp [Expr.tokens, convertible_wordToken, hcondition, hconsequence]
  | .cond condition consequence (some alternative) _ =>
    rw [Expr.wellFormed, Bool.and_eq_true, Bool.and_eq_true] at he
    have hcondition := condition.convertible he.1.1 line
    have hconsequence := consequence.convertible he.1.2 line
    have halternative := alternative.convertible he.2 line
    simp [Expr.tokens, convertible_wordToken, hcondition, hconsequence, halternative]
  | .unary (.unknown _) _ _ | .binary (.unknown _) _ _ _ | .misplaced _ | .foreign => cases he
termination_by structural e

/-- The numerals of well-formed expressions are short. -/
theorem convertible_list (es : List Expr) (hes : wellFormedList es = true) (line : Nat) :
    Throughout Convertible (tokensOfList line es) := by
  match es with
  | [] => simp [tokensOfList]
  | [last] =>
    rw [wellFormedList, Bool.and_eq_true] at hes
    exact last.convertible hes.1 line
  | first :: second :: others =>
    rw [wellFormedList, Bool.and_eq_true] at hes
    have hfirst := first.convertible hes.1 line
    have hothers := convertible_list (second :: others) hes.2 line
    simp [tokensOfList, convertible_symbolToken, hfirst, hothers]
termination_by structural es

/-- The numerals of a well-formed statement are short. -/
theorem Stmt.convertible (s : Stmt) (hs : s.wellFormed = true) (line : Nat) :
    Throughout Convertible (s.tokens line) := by
  match s with
  | .var target value _ =>
    rw [Stmt.wellFormed, Bool.and_eq_true] at hs
    have hvalue := value.convertible hs.2 line
    simp [Stmt.tokens, convertible_wordToken, convertible_symbolToken, hvalue]
  | .ret value _ =>
    rw [Stmt.wellFormed] at hs
    have hvalue := value.convertible hs line
    simp [Stmt.tokens, convertible_wordToken, hvalue]
  | .expr value _ => exact value.convertible hs line
  | .block _ | .misplaced _ | .program _ => cases hs
termination_by structural s

/-- The numerals of a well-formed block are short. -/
theorem Block.convertible (b : Block) (hb : b.wellFormed = true) (line : Nat) :
    Throughout Convertible (b.tokens line) := by
  match b with
  | .mk statements _ =>
    have hstatements := convertible_statements statements hb 0 line
    simp [Block.tokens, convertible_symbolToken, hstatements]
termination_by structural b

/-- The numerals of well-formed statements are short. -/
theorem convertible_statements (ss : List Stmt) (hss : wellFormedStatements ss = true)
    (step line : Nat) : Throughout Convertible (tokensOfStatements step line ss) := by
  match ss with
  | [] => simp [tokensOfStatements]
  | first :: others =>
    rw [wellFormedStatements, Bool.and_eq_true] at hss
    have hfirst := first.convertible hss.1 line
    have hothers := convertible_statements others hss.2 step (line + step)
    simp [tokensOfStatements, convertible_symbolToken, hfirst, hothers]
termination_by structural ss

end

/-- The statements of a program one a line are scanned as the tokens of each on its line. -/
theorem scanFrom_listing (ss : List Stmt) (hss : wellFormedStatements ss = true) (line : Nat) :
    (scanFrom line (String.join (ss.map fun s => s.render ++ "\n")).toList).tokens =
      tokensOfStatements 1 line ss := by
  induction ss generalizing line with
  | nil => exact scanFrom_nil
  | cons first others ih =>
    rw [wellFormedStatements, Bool.and_eq_true] at hss
    have htext : (String.join ((first :: others).map fun s => s.render ++ "\n")).toList =
        first.render.toList ++ '\n' ::
          (String.join (others.map fun s => s.render ++ "\n")).toList := by
      simp
    rw [htext, first.scanFrom_render hss.1 line, scanFrom_newline, ih hss.2 (line + 1)]
    rfl

/-- A text with the tokens of a well-formed program is read as the program. -/
theorem exists_parse_of_tokens {p : Program} (hp : p.wellFormed = true) {source : String}
    {step : Nat} (h : (tokenStream source).tokens = tokensOfStatements step 1 p.statements) :
    ∃ q, parse .unbounded source = .ok q ∧ p.same q = true := by
  obtain ⟨us, ss, hus, hdesugar, hsame⟩ := readBack_statements p.statements hp step 1
  have hread : Surface.parse .unbounded source = .ok us := by
    rw [Surface.parse, h]
    exact statements_complete hus (convertible_statements p.statements hp step 1)
  refine ⟨⟨ss⟩, ?_, hsame⟩
  simp only [parse, hread, ok_bind, desugar, hdesugar]
  rfl

end Deriving

/-- Every program that reading returns is well formed, and every well-formed program is read back
as the same program, both from its canonical text and from its statements one a line. -/
theorem parse_render_same :
    (∀ depth source p, parse depth source = .ok p → p.wellFormed = true) ∧
      ∀ p : Program, p.wellFormed = true →
        (∃ q, parse .unbounded p.render = .ok q ∧ p.same q = true) ∧
          ∃ q, parse .unbounded p.listing = .ok q ∧ p.same q = true := by
  refine ⟨fun depth source p h => wellFormed_of_parse h, fun p hp => ⟨?_, ?_⟩⟩
  · have hscan := @scanFrom_renderStatements p.statements hp 1 []
    rw [scanFrom_nil, List.append_nil, List.append_nil] at hscan
    exact exists_parse_of_tokens hp hscan
  · exact exists_parse_of_tokens hp (scanFrom_listing p.statements hp 1)

/-- An `if` is called, the call is the condition of an `if`, and that is under an operator. -/
def calledIf : Program :=
  ⟨[.expr (.unary (.known .negate) (.cond
    (.call (.cond (.ident "x" 0) (.mk [.ret (.int Integer.maxValue 0) 0] 0) none 0)
      [.bool true 0, .array [] 0] 0)
    (.mk [.var ⟨"y", 0⟩ (.function [⟨"a", 0⟩, ⟨"b", 0⟩] (.mk [] 0) 0) 0] 0) none 0) 0) 0]⟩

/-- Nested constructs without parentheses are read back from their text. -/
theorem parse_render_same_calledIf :
    calledIf.wellFormed = true ∧
      (∃ q, parse .unbounded calledIf.render = .ok q ∧ calledIf.same q = true) ∧
        ∃ q, parse .unbounded calledIf.listing = .ok q ∧ calledIf.same q = true := by
  have hp : calledIf.wellFormed = true := by decide
  exact ⟨hp, parse_render_same.2 calledIf hp⟩

end EtherLang.Ast
