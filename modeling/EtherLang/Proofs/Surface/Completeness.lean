import EtherLang.Proofs.Surface.Soundness

/-!
# What is derivable is read

The tokens of a derivation are read back as the tree of the derivation, whatever follows them, as
long as what follows belongs to nothing inside: no continuation that the stratum of the expression
would take in, and no `else` that an `if` without one would take in. For an expression the statement
is about the state of the loop. After the tokens of an expression the reading is where it would be
had the expression been its left operand, so that left recursion in the grammar becomes iteration
in the parser.

Together with soundness this makes the parser exact: it accepts the token lists that have a
derivation and returns the tree of every derivation, so no token list has two trees.
-/

namespace EtherLang.Surface.Parser

open Grammar

/-- If a token is a numeral, then one that is short enough to be converted. -/
def Convertible (t : Token) : Prop :=
  t.kind = .integer → t.text.length ≤ Text.maxDigits

/-- What follows an expression of a stratum leaves the expression as it is. -/
def Follows (s : Stratum) (rest : List Token) : Prop :=
  Stops s.binding rest ∧ ∀ t ∈ rest.head?, t.kind ≠ .kwElse

/-- What follows a looser expression may follow a tighter one. -/
theorem Follows.of_binding_le {s s' : Stratum} {rest : List Token} (h : Follows s rest)
    (hle : s.binding ≤ s'.binding) : Follows s' rest :=
  ⟨fun t ht c hc => Nat.le_trans (h.1 t ht c hc) hle, h.2⟩

/-- A continuation follows what binds at least as strongly. -/
theorem follows_continuation {s : Stratum} {t : Token} {c : Continuation}
    (hc : t.kind.continuation? = some c) (hle : c.binding ≤ s.binding) (rest : List Token) :
    Follows s (t :: rest) := by
  constructor
  · intro u hu c' hc'
    cases hu
    rw [hc] at hc'
    cases hc'
    exact hle
  · intro u hu helse
    cases hu
    rw [helse] at hc
    cases hc

/-- What may stand behind a whole expression: no continuation and no `else`. -/
def Closes (rest : List Token) : Prop :=
  ∀ t ∈ rest.head?, t.kind.continuation? = none ∧ t.kind ≠ .kwElse

/-- An expression may stand at the end of the tokens. -/
theorem closes_nil : Closes [] :=
  nofun

/-- A token that neither continues an expression nor is `else` may stand behind one. -/
theorem closes_cons {t : Token} {kind : TokenKind} (ht : t.kind = kind)
    (hkind : kind.continuation? = none ∧ kind ≠ .kwElse) (rest : List Token) :
    Closes (t :: rest) := by
  intro u hu
  cases hu
  rw [ht]
  exact hkind

/-- Where a whole expression ends, a reading of any strength stops. -/
theorem Closes.stops {rest : List Token} (h : Closes rest) (strength : Nat) :
    Stops strength rest := by
  intro t ht c hc
  rw [(h t ht).1] at hc
  cases hc

/-- What may stand behind a whole expression may follow every stratum. -/
theorem Closes.follows {rest : List Token} (h : Closes rest) (s : Stratum) : Follows s rest :=
  ⟨h.stops s.binding, fun t ht => (h t ht).2⟩

/-- The greatest strength at which the expressions of a stratum are read as a whole. -/
def strengthBelow : Stratum → Nat
  | .arrow => Binding.lowest
  | .equality => Binding.arrow
  | .sum => Binding.equality
  | .product => Binding.sum
  | .unary | .trailer | .primary => Binding.unary

/-- A tighter expression is read as a whole at every strength at which a looser one is. -/
theorem strengthBelow_le_tighter (s : Stratum) :
    strengthBelow s ≤ strengthBelow s.tighter ∧ s.binding ≤ s.tighter.binding := by
  cases s <;> decide

/-- Operators are taken in where their stratum is read, and their right operand is read where they
are taken in. -/
theorem strengthBelow_stratumOf (op : BinaryOp) :
    strengthBelow (stratumOf op) < op.binding ∧
      op.binding ≤ strengthBelow (stratumOf op).tighter ∧
      (stratumOf op).binding = op.binding := by
  cases op <;> decide

/-- Trailers are taken in at every strength at which expressions are read. -/
theorem strengthBelow_lt_trailer (s : Stratum) : strengthBelow s < Binding.trailer := by
  cases s <;> decide

/-- Every operator continues an expression. -/
theorem continuation?_tokenKind (op : BinaryOp) :
    op.tokenKind.continuation? = some (.binary op) := by
  cases op <;> rfl

/-- A list of tokens was read with this value, and these tokens are left. -/
def Reads {α : Type} {tokens : List Token} (r : Except ParseFailure (Parsed α tokens)) (value : α)
    (rest : List Token) : Prop :=
  ∃ h, r = .ok ⟨value, rest, h⟩

/-- An optional part was read with this value, and these tokens are left. -/
def Leaves {α : Type} {tokens : List Token} (r : Except ParseFailure (Remaining α tokens))
    (value : α) (rest : List Token) : Prop :=
  ∃ h, r = .ok ⟨value, rest, h⟩

/-- A computation that has succeeded goes on with its value. -/
theorem ok_bind {ε α β : Type} (a : α) (f : α → Except ε β) :
    ((.ok a : Except ε α) >>= f) = f a :=
  rfl

/-- A token of the kind that is due is read. -/
theorem expect_complete (endLine : Nat) {t : Token} {kind : TokenKind} (due : Expectation)
    (rest : List Token) (h : t.kind = kind) :
    Reads (expect endLine kind due (t :: rest)) t rest := by
  refine ⟨by simp, ?_⟩
  rw [expect, if_pos h]

/-- A name that is due is read. -/
theorem expectIdent_complete (endLine : Nat) {t : Token} (due : Expectation) (rest : List Token)
    (h : t.kind = .ident) :
    Reads (expectIdent endLine due (t :: rest)) ⟨t.text, t.line⟩ rest := by
  obtain ⟨hlt, ht⟩ := expect_complete endLine due rest h
  refine ⟨hlt, ?_⟩
  rw [expectIdent, ht]
  rfl

/-- The names behind a first one are read up to the closing bar. -/
theorem moreParams_complete (endLine : Nat) {first close : Token} {ts : List Token}
    {names : List Ident} (h : Names (first :: ts) names) (hclose : close.kind = .bar)
    (rest : List Token) :
    ∃ others, names = ⟨first.text, first.line⟩ :: others ∧ first.kind = .ident ∧
      Reads (moreParams endLine (ts ++ close :: rest)) others rest := by
  match ts, h with
  | [], .last hfirst =>
    refine ⟨[], rfl, hfirst, ?_⟩
    rw [List.nil_append]
    refine ⟨by simp, ?_⟩
    rw [moreParams, hclose]
  | comma :: name :: ts, .cons hfirst hcomma h =>
    obtain ⟨others, rfl, hname, hlt, hothers⟩ := moreParams_complete endLine h hclose rest
    obtain ⟨hlt', hname⟩ := expectIdent_complete endLine .parameter (ts ++ close :: rest) hname
    refine ⟨_, rfl, hfirst, ?_⟩
    change Reads (moreParams endLine (comma :: name :: (ts ++ close :: rest))) _ _
    refine ⟨by simp only [List.length_cons]; omega, ?_⟩
    rw [moreParams, hcomma]
    simp only [hname, ok_bind, hothers]
    rfl

/-- The parameters of a function are read up to the closing bar. -/
theorem params_complete (endLine : Nat) {close : Token} {ts : List Token} {names : List Ident}
    (h : Params ts names) (hclose : close.kind = .bar) (rest : List Token) :
    Reads (params endLine (ts ++ close :: rest)) names rest := by
  match ts, h with
  | [], .none =>
    rw [List.nil_append]
    refine ⟨by simp, ?_⟩
    rw [params, if_pos hclose]
  | first :: ts, .some h =>
    obtain ⟨others, rfl, hfirst, hlt, hothers⟩ := moreParams_complete endLine h hclose rest
    obtain ⟨hlt', hname⟩ := expectIdent_complete endLine .parameter (ts ++ close :: rest) hfirst
    rw [List.cons_append]
    refine ⟨by simp only [List.length_cons]; omega, ?_⟩
    rw [params, if_neg (by rw [hfirst]; decide)]
    simp only [hname, ok_bind, hothers]
    rfl

variable {endLine : Nat}

/-- An expression is an operand with the continuations behind it. -/
theorem expr_of_operand {strength : Nat} {tokens rest₁ rest₂ : List Token} {left e : Expr}
    (hleft : Reads (operand endLine .unbounded tokens) left rest₁)
    (h : Leaves (continuations endLine .unbounded strength left rest₁) e rest₂) :
    Reads (expr endLine .unbounded strength tokens) e rest₂ := by
  obtain ⟨hlt, hleft⟩ := hleft
  obtain ⟨hle, h⟩ := h
  refine ⟨by omega, ?_⟩
  rw [expr]
  simp only [Depth.down?, hleft, ok_bind, h]
  rfl

/-- The loop over continuations ends where the reading stops. -/
theorem continuations_of_stops {strength : Nat} {left : Expr} {rest : List Token}
    (h : Stops strength rest) :
    Leaves (continuations endLine .unbounded strength left rest) left rest := by
  match rest with
  | [] => exact ⟨by simp, by rw [continuations]⟩
  | t :: us =>
    refine ⟨by simp, ?_⟩
    rw [continuations]
    split
    · rfl
    · next c hc =>
      have hle := h t rfl c hc
      rw [if_neg (by omega)]

/-- The loop over continuations takes in a continuation that is strong enough. -/
theorem continuations_of_continuation {strength : Nat} {left longer e : Expr} {t : Token}
    {c : Continuation} {tokens rest₁ rest₂ : List Token} (hc : t.kind.continuation? = some c)
    (hstronger : strength < c.binding)
    (hlonger : Reads (continuation endLine .unbounded left c t.line tokens) longer rest₁)
    (h : Leaves (continuations endLine .unbounded strength longer rest₁) e rest₂) :
    Leaves (continuations endLine .unbounded strength left (t :: tokens)) e rest₂ := by
  obtain ⟨hlt, hlonger⟩ := hlonger
  obtain ⟨hle, h⟩ := h
  refine ⟨by simp only [List.length_cons]; omega, ?_⟩
  rw [continuations, hc]
  simp only [if_pos hstronger, hlonger, ok_bind, h]
  rfl

section Continuation

variable {left : Expr} {line : Nat} {tokens rest : List Token}

/-- A call takes its arguments from between parentheses. -/
theorem continuation_call {args : List Expr}
    (h : Reads (exprList endLine .unbounded .rightParen tokens) args rest) :
    Reads (continuation endLine .unbounded left .call line tokens) (.call left args line) rest := by
  obtain ⟨hlt, h⟩ := h
  refine ⟨hlt, ?_⟩
  rw [continuation, h]
  rfl

/-- Indexing takes its position from between brackets. -/
theorem continuation_index {position : Expr} {close : Token}
    (h : Reads (expr endLine .unbounded Binding.lowest tokens) position (close :: rest))
    (hclose : close.kind = .rightBracket) :
    Reads (continuation endLine .unbounded left .index line tokens) (.index left position line)
      rest := by
  obtain ⟨hlt, h⟩ := h
  obtain ⟨hlt', hclose⟩ := expect_complete endLine .indexClose rest hclose
  refine ⟨by omega, ?_⟩
  rw [continuation]
  simp only [h, ok_bind, hclose]
  rfl

/-- An arrow takes its target from what binds more strongly than an arrow. -/
theorem continuation_arrow {target : Expr}
    (h : Reads (expr endLine .unbounded Binding.arrow tokens) target rest) :
    Reads (continuation endLine .unbounded left .arrow line tokens) (.arrow left target line)
      rest := by
  obtain ⟨hlt, h⟩ := h
  refine ⟨hlt, ?_⟩
  rw [continuation, h]
  rfl

/-- An operator takes its right operand from what binds more strongly than itself. -/
theorem continuation_binary {op : BinaryOp} {right : Expr}
    (h : Reads (expr endLine .unbounded op.binding tokens) right rest) :
    Reads (continuation endLine .unbounded left (.binary op) line tokens)
      (.binary op left right line) rest := by
  obtain ⟨hlt, h⟩ := h
  refine ⟨hlt, ?_⟩
  rw [continuation, h]
  rfl

end Continuation

section Operand

variable {t : Token} {tokens rest : List Token}

/-- A short numeral of an integer of the language is an operand. -/
theorem operand_integer (ht : t.kind = .integer) (hdigits : t.text.length ≤ Text.maxDigits)
    (hrange : Text.ofAsciiDigits t.text ≤ Integer.maxValue) :
    Reads (operand endLine .unbounded (t :: rest)) (.integer t.text t.line) rest := by
  refine ⟨by simp, ?_⟩
  rw [operand, ht]
  simp only [literal, if_neg (Nat.not_lt.mpr hdigits), if_pos hrange, ok_bind]
  rfl

/-- The word `true` is an operand. -/
theorem operand_true (ht : t.kind = .kwTrue) :
    Reads (operand endLine .unbounded (t :: rest)) (.boolean true t.line) rest := by
  refine ⟨by simp, ?_⟩
  rw [operand, ht]

/-- The word `false` is an operand. -/
theorem operand_false (ht : t.kind = .kwFalse) :
    Reads (operand endLine .unbounded (t :: rest)) (.boolean false t.line) rest := by
  refine ⟨by simp, ?_⟩
  rw [operand, ht]

/-- A name is an operand. -/
theorem operand_ident (ht : t.kind = .ident) :
    Reads (operand endLine .unbounded (t :: rest)) (.ident t.text t.line) rest := by
  refine ⟨by simp, ?_⟩
  rw [operand, ht]

/-- Parentheses give the expression inside. -/
theorem operand_group {e : Expr} {close : Token} (ht : t.kind = .leftParen)
    (h : Reads (expr endLine .unbounded Binding.lowest tokens) e (close :: rest))
    (hclose : close.kind = .rightParen) :
    Reads (operand endLine .unbounded (t :: tokens)) e rest := by
  obtain ⟨hlt, h⟩ := h
  obtain ⟨hlt', hclose⟩ := expect_complete endLine .groupClose rest hclose
  refine ⟨by simp only [List.length_cons]; omega, ?_⟩
  rw [operand, ht]
  simp only [h, ok_bind, hclose]
  rfl

/-- A unary operator takes its operand from what binds more strongly than itself. -/
theorem operand_unary (op : UnaryOp) {e : Expr} (ht : t.kind = op.tokenKind)
    (h : Reads (expr endLine .unbounded Binding.unary tokens) e rest) :
    Reads (operand endLine .unbounded (t :: tokens)) (.unary op e t.line) rest := by
  obtain ⟨hlt, h⟩ := h
  refine ⟨by simp only [List.length_cons]; omega, ?_⟩
  cases op with
  | negate | not =>
    rw [operand, ht]
    simp only [UnaryOp.tokenKind, h, ok_bind]
    rfl

/-- A function is its parameters between bars and a block. -/
theorem operand_function {names : List Ident} {body : Block} {rest₁ : List Token}
    (ht : t.kind = .bar) (hnames : Reads (params endLine tokens) names rest₁)
    (hbody : Reads (block endLine .unbounded .functionBody rest₁) body rest) :
    Reads (operand endLine .unbounded (t :: tokens)) (.function names body t.line) rest := by
  obtain ⟨hlt, hnames⟩ := hnames
  obtain ⟨hlt', hbody⟩ := hbody
  refine ⟨by simp only [List.length_cons]; omega, ?_⟩
  rw [operand, ht]
  simp only [hnames, ok_bind, hbody]
  rfl

/-- An array is its elements between brackets. -/
theorem operand_array {elements : List Expr} (ht : t.kind = .leftBracket)
    (h : Reads (exprList endLine .unbounded .rightBracket tokens) elements rest) :
    Reads (operand endLine .unbounded (t :: tokens)) (.array elements t.line) rest := by
  obtain ⟨hlt, h⟩ := h
  refine ⟨by simp only [List.length_cons]; omega, ?_⟩
  rw [operand, ht]
  simp only [h, ok_bind]
  rfl

/-- An `if` is its condition, a block and what stands behind `else`, if anything does. -/
theorem operand_cond {condition : Expr} {consequence : Block} {part : Option Block}
    {rest₁ rest₂ : List Token} (ht : t.kind = .kwIf)
    (hcondition : Reads (expr endLine .unbounded Binding.lowest tokens) condition rest₁)
    (hconsequence : Reads (block endLine .unbounded .ifBody rest₁) consequence rest₂)
    (hpart : Leaves (alternative endLine .unbounded rest₂) part rest) :
    Reads (operand endLine .unbounded (t :: tokens)) (.cond condition consequence part t.line)
      rest := by
  obtain ⟨hlt, hcondition⟩ := hcondition
  obtain ⟨hlt', hconsequence⟩ := hconsequence
  obtain ⟨hle, hpart⟩ := hpart
  refine ⟨by simp only [List.length_cons]; omega, ?_⟩
  rw [operand, ht]
  simp only [hcondition, ok_bind, hconsequence, hpart]
  rfl

/-- Behind an `if` there is no `else` part unless the next token is `else`. -/
theorem alternative_none (h : ∀ t ∈ rest.head?, t.kind ≠ .kwElse) :
    Leaves (alternative endLine .unbounded rest) none rest := by
  match rest with
  | [] => exact ⟨by simp, by rw [alternative]⟩
  | t :: us => exact ⟨by simp, by rw [alternative, if_neg (h t rfl)]⟩

/-- Behind `else` stands a block. -/
theorem alternative_some {body : Block} (ht : t.kind = .kwElse)
    (h : Reads (block endLine .unbounded .elseBody tokens) body rest) :
    Leaves (alternative endLine .unbounded (t :: tokens)) (some body) rest := by
  obtain ⟨hlt, h⟩ := h
  refine ⟨by simp only [List.length_cons]; omega, ?_⟩
  rw [alternative, if_pos ht, h]
  rfl

end Operand

section Sequences

variable {t : Token} {tokens rest rest₁ : List Token}

/-- A closing token right away ends an empty list. -/
theorem exprList_nil {close : TokenKind} (ht : t.kind = close) :
    Reads (exprList endLine .unbounded close (t :: rest)) [] rest := by
  refine ⟨by simp, ?_⟩
  rw [exprList, if_pos ht]

/-- A list that does not end right away has a first expression. -/
theorem exprList_cons {close : TokenKind} {e : Expr} {es : List Expr} (ht : t.kind ≠ close)
    (h : Reads (expr endLine .unbounded Binding.lowest (t :: tokens)) e rest₁)
    (hmore : Reads (moreExprs endLine .unbounded close rest₁) es rest) :
    Reads (exprList endLine .unbounded close (t :: tokens)) (e :: es) rest := by
  obtain ⟨hlt, h⟩ := h
  obtain ⟨hlt', hmore⟩ := hmore
  refine ⟨by omega, ?_⟩
  rw [exprList, if_neg ht]
  simp only [h, ok_bind, hmore]
  rfl

/-- A closing token ends a list. -/
theorem moreExprs_nil {close : TokenKind} (ht : t.kind = close) (hcomma : close ≠ .comma) :
    Reads (moreExprs endLine .unbounded close (t :: rest)) [] rest := by
  obtain ⟨hlt, hclose⟩ := expect_complete endLine (.listClose close) rest ht
  refine ⟨hlt, ?_⟩
  rw [moreExprs, if_neg (ht ▸ hcomma), hclose]
  rfl

/-- Behind a comma stands one more expression. -/
theorem moreExprs_cons {close : TokenKind} {e : Expr} {es : List Expr} (ht : t.kind = .comma)
    (h : Reads (expr endLine .unbounded Binding.lowest tokens) e rest₁)
    (hmore : Reads (moreExprs endLine .unbounded close rest₁) es rest) :
    Reads (moreExprs endLine .unbounded close (t :: tokens)) (e :: es) rest := by
  obtain ⟨hlt, h⟩ := h
  obtain ⟨hlt', hmore⟩ := hmore
  refine ⟨by simp only [List.length_cons]; omega, ?_⟩
  rw [moreExprs, if_pos ht]
  simp only [h, ok_bind, hmore]
  rfl

/-- A block is its statements behind an opening brace. -/
theorem block_of_statements {due : Expectation} {ss : List Stmt} (ht : t.kind = .leftBrace)
    (h : Reads (blockStatements endLine .unbounded tokens) ss rest) :
    Reads (block endLine .unbounded due (t :: tokens)) (.mk ss t.line) rest := by
  obtain ⟨hlt, h⟩ := h
  obtain ⟨hlt', ht⟩ := expect_complete endLine due tokens ht
  refine ⟨by omega, ?_⟩
  rw [block]
  simp only [ht, ok_bind, h]
  rfl

/-- A closing brace ends the statements of a block. -/
theorem blockStatements_nil (ht : t.kind = .rightBrace) :
    Reads (blockStatements endLine .unbounded (t :: rest)) [] rest := by
  refine ⟨by simp, ?_⟩
  rw [blockStatements, if_pos ht]

/-- A block that begins with a statement does not end right away. -/
theorem blockStatements_cons {ts : List Token} {s : Stmt} {ss : List Stmt} (hs : Statement ts s)
    (h : Reads (stmt endLine .unbounded (ts ++ tokens)) s rest₁)
    (hmore : Reads (blockStatements endLine .unbounded rest₁) ss rest) :
    Reads (blockStatements endLine .unbounded (ts ++ tokens)) (s :: ss) rest := by
  obtain ⟨t, us, rfl, ht⟩ := hs.exists_head
  have hbrace : t.kind ≠ .rightBrace := by
    intro hbrace
    rw [hbrace] at ht
    cases ht
  rw [List.cons_append] at h ⊢
  obtain ⟨hlt, h⟩ := h
  obtain ⟨hlt', hmore⟩ := hmore
  refine ⟨by omega, ?_⟩
  rw [blockStatements, if_neg hbrace]
  simp only [h, ok_bind, hmore]
  rfl

/-- A semicolon ends any statement. -/
theorem terminator_semicolon (closed : Bool) (ht : t.kind = .semicolon) :
    Leaves (terminator endLine closed (t :: rest)) () rest := by
  refine ⟨by simp, ?_⟩
  rw [terminator, if_pos ht]

/-- Nothing is needed behind a closed statement, before a closing brace and at the end. -/
theorem terminator_none {closed : Bool}
    (h : ∀ t ∈ rest.head?, t.kind ≠ .semicolon ∧ (closed = true ∨ t.kind = .rightBrace)) :
    Leaves (terminator endLine closed rest) () rest := by
  match rest with
  | [] => exact ⟨by simp, rfl⟩
  | t :: us =>
    obtain ⟨hsemicolon, hend⟩ := h t rfl
    refine ⟨by simp, ?_⟩
    rw [terminator, if_neg hsemicolon, if_pos (by simpa using hend)]

/-- A declaration is `var`, a name, `=` and an expression. -/
theorem stmt_var {name equals : Token} {e : Expr} (ht : t.kind = .kwVar)
    (hname : name.kind = .ident) (hequals : equals.kind = .assign)
    (h : Reads (expr endLine .unbounded Binding.lowest tokens) e rest₁)
    (hend : Leaves (terminator endLine false rest₁) () rest) :
    Reads (stmt endLine .unbounded (t :: name :: equals :: tokens))
      (.var ⟨name.text, name.line⟩ e t.line) rest := by
  obtain ⟨hlt, h⟩ := h
  obtain ⟨hle, hend⟩ := hend
  obtain ⟨hlt₁, hname⟩ := expectIdent_complete endLine .varName (equals :: tokens) hname
  obtain ⟨hlt₂, hequals⟩ := expect_complete endLine .varAssign tokens hequals
  refine ⟨by simp only [List.length_cons]; omega, ?_⟩
  rw [stmt, ht]
  simp only [hname, ok_bind, hequals, h, hend]
  rfl

/-- A `return` is followed by an expression. -/
theorem stmt_ret {e : Expr} (ht : t.kind = .kwReturn)
    (h : Reads (expr endLine .unbounded Binding.lowest tokens) e rest₁)
    (hend : Leaves (terminator endLine false rest₁) () rest) :
    Reads (stmt endLine .unbounded (t :: tokens)) (.ret e t.line) rest := by
  obtain ⟨hlt, h⟩ := h
  obtain ⟨hle, hend⟩ := hend
  refine ⟨by simp only [List.length_cons]; omega, ?_⟩
  rw [stmt, ht]
  simp only [h, ok_bind, hend]
  rfl

/-- Any other statement is an expression. -/
theorem stmt_expr {e : Expr} (ht : startsExpr t.kind = true)
    (h : Reads (expr endLine .unbounded Binding.lowest (t :: tokens)) e rest₁)
    (hend : Leaves (terminator endLine e.isCond rest₁) () rest) :
    Reads (stmt endLine .unbounded (t :: tokens)) (.expr e t.line) rest := by
  obtain ⟨hlt, h⟩ := h
  obtain ⟨hle, hend⟩ := hend
  refine ⟨by omega, ?_⟩
  rw [stmt]
  split
  · next hvar => rw [hvar] at ht; cases ht
  · next hret => rw [hret] at ht; cases ht
  · rw [exprStmt]
    simp only [h, ok_bind, hend]
    rfl

end Sequences

/-- A block may stand behind a whole expression. -/
theorem closes_braces {ts : List Token} {body : Block} (h : Braces ts body) (rest : List Token) :
    Closes (ts ++ rest) := by
  cases h with
  | mk ht _ _ => exact closes_cons ht (by decide) _

/-- A closed statement ends where the next token begins a statement and continues nothing. -/
theorem closes_next {next : Token} {ts : List Token} {ss : List Stmt}
    (h : Statements (next :: ts) ss) (hnext : continuesExpr next.kind = false)
    (rest : List Token) : Closes (next :: rest) := by
  refine closes_cons rfl ⟨continuation?_eq_none_iff.mpr hnext, ?_⟩ _
  intro helse
  have ht := h.startsStmt_head
  rw [helse] at ht
  cases ht

/-- A closed statement needs nothing between itself and the next statement. -/
theorem terminator_closed {s : Stmt} {next : Token} {ts rest : List Token} {ss : List Stmt}
    (hclosed : s.isClosed = true) (h : Statements (next :: ts) ss) :
    Leaves (terminator endLine s.isClosed (next :: rest)) () (next :: rest) := by
  refine terminator_none fun t ht => ?_
  cases ht
  refine ⟨fun hsemicolon => ?_, .inl hclosed⟩
  have ht := h.startsStmt_head
  rw [hsemicolon] at ht
  cases ht

mutual

/-- After the tokens of an expression the reading is where it would be had the expression been its
left operand. -/
theorem derives_reads {s : Stratum} {ts : List Token} {e : Expr} (h : Derives s ts e)
    (hts : Throughout Convertible ts) {rest rest' : List Token} {whole : Expr}
    (hrest : Follows s rest) {strength : Nat} (hstrength : strength ≤ strengthBelow s)
    (hwhole : Leaves (continuations endLine .unbounded strength e rest) whole rest') :
    Reads (expr endLine .unbounded strength (ts ++ rest)) whole rest' := by
  match h with
  | .arrow (t := t) hl ht hr =>
    have hc : t.kind.continuation? = some .arrow := by rw [ht]; rfl
    have hright := derives_reads hr hts.right.tail (hrest.of_binding_le (by decide))
      (Nat.le_refl _) (continuations_of_stops hrest.1)
    rw [List.append_assoc, List.cons_append]
    exact derives_reads hl hts.left (follows_continuation hc (by decide) _) hstrength
      (continuations_of_continuation hc (Nat.lt_succ_of_le hstrength) (continuation_arrow hright)
        hwhole)
  | .binary (t := t) op hl ht hr =>
    obtain ⟨hlt, hle, hbinding⟩ := strengthBelow_stratumOf op
    have hc : t.kind.continuation? = some (.binary op) := by
      rw [ht]
      exact continuation?_tokenKind op
    have hright := derives_reads hr hts.right.tail
      (hrest.of_binding_le (strengthBelow_le_tighter _).2) hle
      (continuations_of_stops (hbinding ▸ hrest.1))
    rw [List.append_assoc, List.cons_append]
    exact derives_reads hl hts.left (follows_continuation hc (Nat.le_of_eq hbinding.symm) _)
      hstrength (continuations_of_continuation hc (Nat.lt_of_le_of_lt hstrength hlt)
        (continuation_binary hright) hwhole)
  | .unary op ht h =>
    have hoperand := derives_reads h hts.tail hrest (Nat.le_refl _)
      (continuations_of_stops hrest.1)
    exact expr_of_operand (operand_unary op ht hoperand) hwhole
  | .call (t := t) hcallee ht hargs hclose =>
    have hc : t.kind.continuation? = some .call := by rw [ht]; rfl
    have hlt := Nat.lt_of_le_of_lt hstrength (strengthBelow_lt_trailer _)
    have hargs := args_reads hargs hts.right.tail.left hclose (.inl rfl) rest
    rw [List.append_assoc, List.cons_append, List.append_assoc, List.singleton_append]
    exact derives_reads hcallee hts.left (follows_continuation hc (by decide) _) hstrength
      (continuations_of_continuation hc hlt (continuation_call hargs) hwhole)
  | .index (t := t) harray ht hposition hclose =>
    have hc : t.kind.continuation? = some .index := by rw [ht]; rfl
    have hlt := Nat.lt_of_le_of_lt hstrength (strengthBelow_lt_trailer _)
    have hend := closes_cons hclose (by decide) rest
    have hposition := derives_reads hposition hts.right.tail.left (hend.follows _)
      (Nat.le_refl _) (continuations_of_stops (hend.stops _))
    rw [List.append_assoc, List.cons_append, List.append_assoc, List.singleton_append]
    exact derives_reads harray hts.left (follows_continuation hc (by decide) _) hstrength
      (continuations_of_continuation hc hlt (continuation_index hposition hclose) hwhole)
  | .integer ht hrange =>
    exact expr_of_operand (operand_integer ht (hts.head ht) hrange) hwhole
  | .kwTrue ht => exact expr_of_operand (operand_true ht) hwhole
  | .kwFalse ht => exact expr_of_operand (operand_false ht) hwhole
  | .ident ht => exact expr_of_operand (operand_ident ht) hwhole
  | .group ht h hclose =>
    have hend := closes_cons hclose (by decide) rest
    have hinner := derives_reads h hts.tail.left (hend.follows _) (Nat.le_refl _)
      (continuations_of_stops (hend.stops _))
    rw [List.cons_append, List.append_assoc, List.singleton_append]
    exact expr_of_operand (operand_group ht hinner hclose) hwhole
  | .function ht hnames hclose hbody =>
    have hbody := braces_reads hbody hts.tail.right.tail .functionBody rest
    have hnames := params_complete endLine hnames hclose
    rw [List.cons_append, List.append_assoc, List.cons_append]
    exact expr_of_operand (operand_function ht (hnames _) hbody) hwhole
  | .array ht helements hclose =>
    have helements := args_reads helements hts.tail.left hclose (.inr rfl) rest
    rw [List.cons_append, List.append_assoc, List.singleton_append]
    exact expr_of_operand (operand_array ht helements) hwhole
  | .cond ht hcondition hconsequence =>
    have hbody := braces_reads hconsequence hts.tail.right .ifBody rest
    have hend := closes_braces hconsequence rest
    have hcondition := derives_reads hcondition hts.tail.left (hend.follows _) (Nat.le_refl _)
      (continuations_of_stops (hend.stops _))
    rw [List.cons_append, List.append_assoc]
    exact expr_of_operand (operand_cond ht hcondition hbody (alternative_none hrest.2)) hwhole
  | .condElse ht hcondition hconsequence hu halternative =>
    have hpart := alternative_some hu
      (braces_reads halternative hts.tail.right.right.tail .elseBody rest)
    have hbody := braces_reads hconsequence hts.tail.right.left .ifBody
    have hend := closes_braces hconsequence
    rw [List.cons_append, List.append_assoc, List.append_assoc, List.cons_append]
    refine expr_of_operand (operand_cond ht ?_ (hbody _) hpart) hwhole
    exact derives_reads hcondition hts.tail.left ((hend _).follows _) (Nat.le_refl _)
      (continuations_of_stops ((hend _).stops _))
  | .climb _ h =>
    obtain ⟨hle, hbinding⟩ := strengthBelow_le_tighter s
    exact derives_reads h hts (hrest.of_binding_le hbinding) (Nat.le_trans hstrength hle) hwhole
termination_by structural h

/-- The arguments of a call and the elements of an array are read up to the closing token. -/
theorem args_reads {ts : List Token} {es : List Expr} (h : Args ts es)
    (hts : Throughout Convertible ts) {close : Token} {kind : TokenKind}
    (hclose : close.kind = kind) (hkind : kind = .rightParen ∨ kind = .rightBracket)
    (rest : List Token) :
    Reads (exprList endLine .unbounded kind (ts ++ close :: rest)) es rest := by
  match h with
  | .none => exact exprList_nil hclose
  | .some h =>
    obtain ⟨e, others, rest₁, hes, hfirst, hothers⟩ := items_reads h hts hclose hkind rest
    obtain ⟨t, us, rfl, ht⟩ := h.exists_head
    rw [hes]
    refine exprList_cons ?_ hfirst hothers
    rintro rfl
    obtain hkind | hkind := hkind <;> rw [hkind] at ht <;> cases ht
termination_by structural h

/-- One or more expressions are read up to the closing token, the first one by itself. -/
theorem items_reads {ts : List Token} {es : List Expr} (h : Items ts es)
    (hts : Throughout Convertible ts) {close : Token} {kind : TokenKind}
    (hclose : close.kind = kind) (hkind : kind = .rightParen ∨ kind = .rightBracket)
    (rest : List Token) :
    ∃ e others rest₁, es = e :: others ∧
      Reads (expr endLine .unbounded Binding.lowest (ts ++ close :: rest)) e rest₁ ∧
      Reads (moreExprs endLine .unbounded kind rest₁) others rest := by
  match h with
  | .last (e := e) he =>
    have hend := closes_cons hclose (by obtain rfl | rfl := hkind <;> decide) rest
    have hfirst := derives_reads he hts (hend.follows _) (Nat.le_refl _)
      (continuations_of_stops (hend.stops _))
    exact ⟨e, [], _, rfl, hfirst, moreExprs_nil hclose (by obtain rfl | rfl := hkind <;> decide)⟩
  | .cons (e := e) he hcomma h =>
    obtain ⟨e', others, rest₁, hes, hnext, hothers⟩ :=
      items_reads h hts.right.tail hclose hkind rest
    have hend := closes_cons hcomma (by decide)
    rw [hes, List.append_assoc, List.cons_append]
    refine ⟨e, _, _, rfl, ?_, moreExprs_cons hcomma hnext hothers⟩
    exact derives_reads he hts.left ((hend _).follows _) (Nat.le_refl _)
      (continuations_of_stops ((hend _).stops _))
termination_by structural h

/-- A block is read from brace to brace. -/
theorem braces_reads {ts : List Token} {body : Block} (h : Braces ts body)
    (hts : Throughout Convertible ts) (due : Expectation) (rest : List Token) :
    Reads (block endLine .unbounded due (ts ++ rest)) body rest := by
  match h with
  | .mk ht hss hclose =>
    have hss := statements_read hss hts.tail.left hclose rest
    rw [List.cons_append, List.append_assoc, List.singleton_append]
    exact block_of_statements ht hss
termination_by structural h

/-- A statement is read with the end that it has. -/
theorem statement_reads {ts : List Token} {s : Stmt} (h : Statement ts s)
    (hts : Throughout Convertible ts) {rest rest' : List Token} (hrest : Closes rest)
    (hend : Leaves (terminator endLine s.isClosed rest) () rest') :
    Reads (stmt endLine .unbounded (ts ++ rest)) s rest' := by
  match h with
  | .var ht hname hequals he =>
    have hvalue := derives_reads he hts.tail.tail.tail (hrest.follows _) (Nat.le_refl _)
      (continuations_of_stops (hrest.stops _))
    exact stmt_var ht hname hequals hvalue hend
  | .ret ht he =>
    have hvalue := derives_reads he hts.tail (hrest.follows _) (Nat.le_refl _)
      (continuations_of_stops (hrest.stops _))
    exact stmt_ret ht hvalue hend
  | .expr he =>
    have hvalue := derives_reads he hts (hrest.follows _) (Nat.le_refl _)
      (continuations_of_stops (hrest.stops _))
    obtain ⟨t, us, heq, ht⟩ := he.exists_head
    cases heq
    exact stmt_expr ht hvalue hend
termination_by structural h

/-- The statements of a block are read up to the closing brace. -/
theorem statements_read {ts : List Token} {ss : List Stmt} (h : Statements ts ss)
    (hts : Throughout Convertible ts) {close : Token} (hclose : close.kind = .rightBrace)
    (rest : List Token) :
    Reads (blockStatements endLine .unbounded (ts ++ close :: rest)) ss rest := by
  match h with
  | .nil => exact blockStatements_nil hclose
  | .last (s := s) hs =>
    have hend : Leaves (terminator endLine s.isClosed (close :: rest)) () (close :: rest) := by
      refine terminator_none fun t ht => ?_
      cases ht
      exact ⟨by rw [hclose]; decide, .inr hclose⟩
    refine blockStatements_cons hs ?_ (blockStatements_nil hclose)
    exact statement_reads hs hts (closes_cons hclose (by decide) _) hend
  | .cons hs hsemicolon hss =>
    rw [List.append_assoc]
    refine blockStatements_cons hs ?_ (statements_read hss hts.right.tail hclose rest)
    exact statement_reads hs hts.left (closes_cons hsemicolon (by decide) _)
      (terminator_semicolon _ hsemicolon)
  | .closed hs hclosed hnext hss =>
    rw [List.append_assoc]
    refine blockStatements_cons hs ?_ (statements_read hss hts.right hclose rest)
    exact statement_reads hs hts.left (closes_next hss hnext _) (terminator_closed hclosed hss)
termination_by structural h

end

/-- A program that begins with a statement goes on with the tokens behind it. -/
theorem statements_cons {ts tokens rest : List Token} {s : Stmt} {ss : List Stmt}
    (hs : Statement ts s) (h : Reads (stmt endLine .unbounded (ts ++ tokens)) s rest)
    (hmore : statements endLine .unbounded rest = .ok ss) :
    statements endLine .unbounded (ts ++ tokens) = .ok (s :: ss) := by
  obtain ⟨t, us, rfl, -⟩ := hs.exists_head
  rw [List.cons_append] at h ⊢
  obtain ⟨hlt, h⟩ := h
  rw [statements]
  simp only [h, ok_bind, hmore]
  rfl

/-- The statements of the grammar are read up to the end of the input. -/
theorem statements_complete {ts : List Token} {ss : List Stmt} (h : Statements ts ss)
    (hts : Throughout Convertible ts) : statements endLine .unbounded ts = .ok ss := by
  induction ss generalizing ts with
  | nil =>
    cases h
    rw [statements]
  | cons s ss ih =>
    cases h with
    | last hs =>
      rw [← List.append_nil ts]
      refine statements_cons hs ?_ (by rw [statements])
      exact statement_reads hs hts closes_nil (terminator_none (by simp))
    | cons hs hsemicolon hss =>
      refine statements_cons hs ?_ (ih hss hts.right.tail)
      exact statement_reads hs hts.left (closes_cons hsemicolon (by decide) _)
        (terminator_semicolon _ hsemicolon)
    | closed hs hclosed hnext hss =>
      refine statements_cons hs ?_ (ih hss hts.right)
      exact statement_reads hs hts.left (closes_next hss hnext _) (terminator_closed hclosed hss)

end EtherLang.Surface.Parser

namespace EtherLang.Surface

open Grammar Surface.Parser

/-- Without a bound on nesting, a text whose numerals can be converted is read as a tree exactly if
its tokens derive that tree; a bound only ever takes trees away. No text derives two trees. -/
theorem parse_eq_ok_iff_statements (source : String)
    (hdigits : ∀ t ∈ (tokenStream source).tokens,
      t.kind = .integer → t.text.length ≤ Text.maxDigits) :
    (∀ tree, parse .unbounded source = .ok tree ↔ Statements (tokenStream source).tokens tree) ∧
      (∀ depth tree, parse depth source = .ok tree →
        Statements (tokenStream source).tokens tree) ∧
      ∀ tree tree', Statements (tokenStream source).tokens tree →
        Statements (tokenStream source).tokens tree' → tree = tree' := by
  have hcomplete : ∀ tree, Statements (tokenStream source).tokens tree →
      parse .unbounded source = .ok tree :=
    fun tree h => statements_complete h hdigits
  refine ⟨fun tree => ⟨statements_sound, hcomplete tree⟩, fun _ _ h => statements_sound h, ?_⟩
  intro tree tree' h h'
  have heq : (.ok tree : Except ParseFailure (List Stmt)) = .ok tree' := by
    rw [← hcomplete tree h, hcomplete tree' h']
  exact Except.ok.inj heq

/-- The tokens of an `if` with a name for its condition and an empty body. -/
def bareIf (name : String) (line : Nat) : List Token :=
  [⟨.kwIf, "if", line⟩, ⟨.leftParen, "(", line⟩, ⟨.ident, name, line⟩, ⟨.rightParen, ")", line⟩,
    ⟨.leftBrace, "\x7b", line⟩, ⟨.rightBrace, "\x7d", line⟩]

/-- They derive the `if`. -/
theorem derives_bareIf (name : String) (line : Nat) :
    Derives .primary (bareIf name line) (.cond (.ident name line) (.mk [] line) none line) := by
  have hname : Derives .primary [⟨.ident, name, line⟩] (.ident name line) := .ident rfl
  have hgroup := @Derives.group _ ⟨.leftParen, "(", line⟩ ⟨.rightParen, ")", line⟩ _ rfl
    (hname.of_binding_le (by decide)) rfl
  have hbody := @Braces.mk _ ⟨.leftBrace, "\x7b", line⟩ ⟨.rightBrace, "\x7d", line⟩ _ rfl .nil rfl
  exact @Derives.cond _ _ ⟨.kwIf, "if", line⟩ _ _ rfl (hgroup.of_binding_le (by decide)) hbody

/-- Behind an `if` a minus goes on with the expression, and a name begins the next statement. -/
theorem parse_eq_ok_iff_statements_bareIf :
    (∀ t ∈ (tokenStream "if (a) \x7b\x7d -1;\nif (b) \x7b\x7d c").tokens,
      t.kind = .integer → t.text.length ≤ Text.maxDigits) ∧
      parse .unbounded "if (a) \x7b\x7d -1;\nif (b) \x7b\x7d c" = .ok
        [.expr (.binary .sub (.cond (.ident "a" 1) (.mk [] 1) none 1) (.integer "1" 1) 1) 1,
          .expr (.cond (.ident "b" 2) (.mk [] 2) none 2) 2, .expr (.ident "c" 2) 2] := by
  have htokens : (tokenStream "if (a) \x7b\x7d -1;\nif (b) \x7b\x7d c").tokens =
      bareIf "a" 1 ++ [⟨.minus, "-", 1⟩, ⟨.integer, "1", 1⟩] ++
        ⟨.semicolon, ";", 1⟩ :: (bareIf "b" 2 ++ [⟨.ident, "c", 2⟩]) := by
    decide +kernel
  have hdigits : ∀ t ∈ (tokenStream "if (a) \x7b\x7d -1;\nif (b) \x7b\x7d c").tokens,
      t.kind = .integer → t.text.length ≤ Text.maxDigits := by
    decide +kernel
  refine ⟨hdigits, ((parse_eq_ok_iff_statements _ hdigits).1 _).mpr ?_⟩
  rw [htokens]
  have hone : Derives .primary [⟨.integer, "1", 1⟩] (.integer "1" 1) := .integer rfl (by decide)
  have hname : Derives .primary [⟨.ident, "c", 2⟩] (.ident "c" 2) := .ident rfl
  have hminus := @Derives.binary .sub _ _ ⟨.minus, "-", 1⟩ _ _
    ((derives_bareIf "a" 1).of_binding_le (by decide)) rfl (hone.of_binding_le (by decide))
  have hlast : Statements [⟨.ident, "c", 2⟩] [.expr (.ident "c" 2) 2] :=
    .last (.expr (hname.of_binding_le (by decide)))
  have hif : Statement (bareIf "b" 2) (.expr (.cond (.ident "b" 2) (.mk [] 2) none 2) 2) :=
    .expr ((derives_bareIf "b" 2).of_binding_le (by decide))
  exact .cons (.expr (hminus.of_binding_le (by decide))) rfl (.closed hif rfl rfl hlast)

end EtherLang.Surface
