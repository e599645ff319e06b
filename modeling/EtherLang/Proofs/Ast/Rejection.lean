import EtherLang.Ast.Desugar
import EtherLang.Proofs.Surface.Soundness
import EtherLang.Proofs.Token.LongestMatch

/-!
# Where reading fails

A text that is rejected is rejected for one of its lines. The parser reports every rejection for the
line of a token it was given or for the line of the end, and it hands on no tokens but the last ones
of those it was given. What the parser has read keeps the lines of its tokens, so a bad arrow is
reported for one of these lines too.

A numeral of too many digits is the one thing in a text that is not rejected.
-/

namespace EtherLang

section Lines

/-- Every token of a text stands between its first line and the line of its end. -/
theorem line_mem_scanFrom (line : Nat) (cs : List Char) :
    line ≤ (scanFrom line cs).endLine ∧ ∀ t ∈ (scanFrom line cs).tokens,
      line ≤ t.line ∧ t.line ≤ (scanFrom line cs).endLine := by
  fun_induction scanFrom line cs with
  | case1 line cs gap hgap => exact ⟨Nat.le_add_right _ _, List.forall_mem_nil _⟩
  | case2 line cs gap c rest hgap lexeme after ih =>
    obtain ⟨hend, htokens⟩ := ih
    have hline : line ≤ line + gap.count '\n' := Nat.le_add_right _ _
    refine ⟨Nat.le_trans hline hend, List.forall_mem_cons.mpr ⟨⟨hline, hend⟩, fun t ht => ?_⟩⟩
    exact ⟨Nat.le_trans hline (htokens t ht).1, (htokens t ht).2⟩

end Lines

namespace Surface.Parser

section Accounts

variable {α β : Type} {endLine : Nat} {tokens us : List Token}

/-- The failure has its cause in the tokens: a rejection is for the line of one of them or of the
end, and a numeral that is too long is one of them. -/
def Blames (endLine : Nat) (tokens : List Token) : ParseFailure → Prop
  | .rejected e => e.line = endLine ∨ ∃ t ∈ tokens, e.line = t.line
  | .oversizedLiteral => ∃ t ∈ tokens, t.kind = .integer ∧ Text.maxDigits < t.text.length

/-- A failure of the last tokens is one of all tokens. -/
theorem Blames.of_suffix {failure : ParseFailure} (h : Blames endLine us failure)
    (hus : us <:+ tokens) : Blames endLine tokens failure := by
  cases failure with
  | rejected e =>
    refine h.imp_right ?_
    rintro ⟨t, ht, hline⟩
    exact ⟨t, hus.subset ht, hline⟩
  | oversizedLiteral =>
    obtain ⟨t, ht, hlong⟩ := h
    exact ⟨t, hus.subset ht, hlong⟩

/-- What was read leaves the last ones of the tokens, or else the failure has its cause in the
tokens. -/
def Accounts (endLine : Nat) (tokens : List Token) (rest : α → List Token) :
    Except ParseFailure α → Prop
  | .ok a => rest a <:+ tokens
  | .error failure => Blames endLine tokens failure

variable {rest : α → List Token} {rest' : β → List Token}

/-- A reading of the last tokens is one of all tokens. -/
theorem Accounts.of_suffix {r : Except ParseFailure α} (h : Accounts endLine us rest r)
    (hus : us <:+ tokens) : Accounts endLine tokens rest r := by
  cases r with
  | ok a => exact List.IsSuffix.trans h hus
  | error failure => exact Blames.of_suffix h hus

/-- Two readings one after the other. -/
theorem Accounts.bind {x : Except ParseFailure α} {f : α → Except ParseFailure β}
    (hx : Accounts endLine tokens rest x)
    (hf : ∀ a, rest a <:+ tokens → Accounts endLine tokens rest' (f a)) :
    Accounts endLine tokens rest' (x >>= f) := by
  cases x with
  | ok a => exact hf a hx
  | error failure => exact hx

/-- The next token is on the line of a token or of the end. -/
theorem peek_line (endLine : Nat) (tokens : List Token) :
    (peek endLine tokens).line = endLine ∨ ∃ t ∈ tokens, (peek endLine tokens).line = t.line := by
  cases tokens with
  | nil => exact .inl rfl
  | cons t us => exact .inr ⟨t, List.mem_cons_self .., rfl⟩

/-- A token that is not the one that is due is blamed itself. -/
theorem accounts_rejectNext (due : Expectation) :
    Accounts endLine tokens rest (rejectNext endLine due tokens) :=
  peek_line endLine tokens

/-- The first token is blamed. -/
theorem accounts_reject_head (cause : ParseError.Cause) (t : Token) :
    Accounts endLine (t :: us) rest (reject cause t.line) :=
  .inr ⟨t, List.mem_cons_self .., rfl⟩

/-- The end of the input is blamed. -/
theorem accounts_reject_end (cause : ParseError.Cause) :
    Accounts endLine tokens rest (reject cause endLine) :=
  .inl rfl

/-- A token that is due. -/
theorem expect_accounts (kind : TokenKind) (due : Expectation) (tokens : List Token) :
    Accounts endLine tokens Parsed.rest (expect endLine kind due tokens) := by
  cases tokens with
  | nil => exact accounts_rejectNext due
  | cons t us =>
    rw [expect]
    split
    · exact List.suffix_cons t us
    · exact accounts_rejectNext due

/-- A name that is due. -/
theorem expectIdent_accounts (due : Expectation) (tokens : List Token) :
    Accounts endLine tokens Parsed.rest (expectIdent endLine due tokens) := by
  refine (expect_accounts .ident due tokens).bind fun p hp => ?_
  obtain ⟨t, us, h⟩ := p
  exact hp

/-- The end of a statement. -/
theorem terminator_accounts (closed : Bool) (tokens : List Token) :
    Accounts endLine tokens Remaining.rest (terminator endLine closed tokens) := by
  unfold terminator
  split
  · exact List.suffix_refl []
  · split
    · exact List.suffix_cons _ _
    · split
      · exact List.suffix_refl _
      · exact accounts_rejectNext _

/-- The parameters behind a first one. -/
theorem moreParams_accounts (tokens : List Token) :
    Accounts endLine tokens Parsed.rest (moreParams endLine tokens) := by
  match tokens with
  | [] =>
    rw [moreParams]
    exact accounts_rejectNext _
  | t :: us =>
    rw [moreParams]
    split
    · have hname : Accounts endLine us Parsed.rest (expectIdent endLine .parameter us) :=
        expectIdent_accounts .parameter us
      refine (hname.of_suffix (List.suffix_cons t us)).bind ?_
      rintro ⟨param, us₁, h₁⟩ hp
      refine ((moreParams_accounts us₁).of_suffix hp).bind ?_
      rintro ⟨params, us₂, h₂⟩ hq
      exact hq
    · exact List.suffix_cons t us
    · exact accounts_rejectNext _
termination_by tokens.length
decreasing_by simp only [List.length_cons]; omega

/-- The parameters of a function. -/
theorem params_accounts (tokens : List Token) :
    Accounts endLine tokens Parsed.rest (params endLine tokens) := by
  unfold params
  split
  · exact accounts_rejectNext _
  · next t us =>
    split
    · exact List.suffix_cons t us
    · refine (expectIdent_accounts .parameter (t :: us)).bind ?_
      rintro ⟨param, us₁, h₁⟩ hp
      refine ((moreParams_accounts us₁).of_suffix hp).bind ?_
      rintro ⟨params, us₂, h₂⟩ hq
      exact hq

/-- A numeral is rejected on its line, or it is too long. -/
theorem literal_accounts {t : Token} (hkind : t.kind = .integer) (us : List Token) :
    Accounts endLine (t :: us) (fun _ => us) (literal t) := by
  unfold literal
  split
  · next hlong => exact ⟨t, List.mem_cons_self .., hkind, hlong⟩
  · split
    · exact List.suffix_cons t us
    · exact accounts_reject_head _ t

end Accounts

section Functions

/-- The functions of the parser account for what they do with the tokens. -/
structure Accountable (endLine : Nat) (tokens : List Token) : Prop where
  expr : ∀ depth strength,
    Accounts endLine tokens Parsed.rest (expr endLine depth strength tokens)
  continuations : ∀ depth strength left,
    Accounts endLine tokens Remaining.rest (continuations endLine depth strength left tokens)
  continuation : ∀ depth left c line,
    Accounts endLine tokens Parsed.rest (continuation endLine depth left c line tokens)
  alternative : ∀ depth, Accounts endLine tokens Remaining.rest (alternative endLine depth tokens)
  exprList : ∀ depth close,
    Accounts endLine tokens Parsed.rest (exprList endLine depth close tokens)
  moreExprs : ∀ depth close,
    Accounts endLine tokens Parsed.rest (moreExprs endLine depth close tokens)
  block : ∀ depth due, Accounts endLine tokens Parsed.rest (block endLine depth due tokens)
  blockStatements : ∀ depth,
    Accounts endLine tokens Parsed.rest (blockStatements endLine depth tokens)
  stmt : ∀ depth, Accounts endLine tokens Parsed.rest (stmt endLine depth tokens)

/-- The functions of the parser account for what they do with fewer tokens. -/
def AccountableBelow (endLine : Nat) (tokens : List Token) : Prop :=
  ∀ us : List Token, us.length < tokens.length → Accountable endLine us

variable {endLine : Nat} {tokens : List Token}

/-- Operands account for their tokens where fewer tokens are accounted for. -/
theorem operand_accounts (below : AccountableBelow endLine tokens) (depth : Depth) :
    Accounts endLine tokens Parsed.rest (operand endLine depth tokens) := by
  cases tokens with
  | nil =>
    rw [operand]
    exact accounts_reject_end _
  | cons t us =>
    have next : Accountable endLine us := below us (Nat.lt_succ_self _)
    have htail : us <:+ t :: us := List.suffix_cons t us
    rw [operand]
    split
    · next hkind => exact (literal_accounts hkind us).bind fun value _ => htail
    · exact htail
    · exact htail
    · exact htail
    · refine ((next.expr _ _).of_suffix htail).bind ?_
      rintro ⟨inner, us₁, h₁⟩ hp
      refine ((expect_accounts _ _ us₁).of_suffix hp).bind ?_
      rintro ⟨close, us₂, h₂⟩ hq
      exact hq
    · refine ((next.expr _ _).of_suffix htail).bind ?_
      rintro ⟨inner, us₁, h₁⟩ hp
      exact hp
    · refine ((next.expr _ _).of_suffix htail).bind ?_
      rintro ⟨inner, us₁, h₁⟩ hp
      exact hp
    · refine ((params_accounts us).of_suffix htail).bind ?_
      rintro ⟨names, us₁, h₁⟩ hp
      refine (((below us₁ (Nat.lt_succ_of_lt h₁)).block _ _).of_suffix hp).bind ?_
      rintro ⟨body, us₂, h₂⟩ hq
      exact hq
    · refine ((next.exprList _ _).of_suffix htail).bind ?_
      rintro ⟨elements, us₁, h₁⟩ hp
      exact hp
    · refine ((next.expr _ _).of_suffix htail).bind ?_
      rintro ⟨condition, us₁, h₁⟩ hp
      refine (((below us₁ (Nat.lt_succ_of_lt h₁)).block _ _).of_suffix hp).bind ?_
      rintro ⟨consequence, us₂, h₂⟩ hq
      have hlt₂ : us₂.length < (t :: us).length := Nat.lt_succ_of_lt (Nat.lt_trans h₂ h₁)
      refine (((below us₂ hlt₂).alternative _).of_suffix hq).bind ?_
      rintro ⟨alternative, us₃, h₃⟩ hr
      exact hr
    · exact accounts_reject_head _ t
    · exact accounts_reject_head _ t

/-- Expressions account for their tokens where fewer tokens are accounted for. -/
theorem expr_accounts (below : AccountableBelow endLine tokens) (depth : Depth) (strength : Nat) :
    Accounts endLine tokens Parsed.rest (expr endLine depth strength tokens) := by
  rw [expr]
  split
  · exact peek_line endLine tokens
  · refine (operand_accounts below _).bind ?_
    rintro ⟨left, us₁, h₁⟩ hp
    refine (((below us₁ h₁).continuations _ _ _).of_suffix hp).bind ?_
    rintro ⟨whole, us₂, h₂⟩ hq
    exact hq

/-- The loop over continuations accounts for its tokens where fewer tokens are accounted for. -/
theorem continuations_accounts (below : AccountableBelow endLine tokens) (depth : Depth)
    (strength : Nat) (left : Expr) :
    Accounts endLine tokens Remaining.rest (continuations endLine depth strength left tokens) := by
  cases tokens with
  | nil =>
    rw [continuations]
    exact List.suffix_refl []
  | cons t us =>
    rw [continuations]
    split
    · exact List.suffix_refl _
    · split
      · have next : Accountable endLine us := below us (Nat.lt_succ_self _)
        refine ((next.continuation _ _ _ _).of_suffix (List.suffix_cons t us)).bind ?_
        rintro ⟨longer, us₁, h₁⟩ hp
        refine (((below us₁ (Nat.lt_succ_of_lt h₁)).continuations _ _ _).of_suffix hp).bind ?_
        rintro ⟨whole, us₂, h₂⟩ hq
        exact hq
      · exact List.suffix_refl _

/-- Lists of expressions account for their tokens where fewer tokens are accounted for. -/
theorem exprList_accounts (below : AccountableBelow endLine tokens) (depth : Depth)
    (close : TokenKind) :
    Accounts endLine tokens Parsed.rest (exprList endLine depth close tokens) := by
  cases tokens with
  | nil =>
    rw [exprList]
    exact accounts_reject_end _
  | cons t us =>
    rw [exprList]
    split
    · exact List.suffix_cons t us
    · refine (expr_accounts below _ _).bind ?_
      rintro ⟨first, us₁, h₁⟩ hp
      refine (((below us₁ h₁).moreExprs _ _).of_suffix hp).bind ?_
      rintro ⟨others, us₂, h₂⟩ hq
      exact hq

/-- One continuation accounts for its tokens where fewer tokens are accounted for. -/
theorem continuation_accounts (below : AccountableBelow endLine tokens) (depth : Depth)
    (left : Expr) (c : Continuation) (line : Nat) :
    Accounts endLine tokens Parsed.rest (continuation endLine depth left c line tokens) := by
  cases c with
  | call =>
    rw [continuation]
    refine (exprList_accounts below _ _).bind ?_
    rintro ⟨args, us₁, h₁⟩ hp
    exact hp
  | index =>
    rw [continuation]
    refine (expr_accounts below _ _).bind ?_
    rintro ⟨position, us₁, h₁⟩ hp
    refine ((expect_accounts _ _ us₁).of_suffix hp).bind ?_
    rintro ⟨close, us₂, h₂⟩ hq
    exact hq
  | arrow =>
    rw [continuation]
    refine (expr_accounts below _ _).bind ?_
    rintro ⟨target, us₁, h₁⟩ hp
    exact hp
  | binary op =>
    rw [continuation]
    refine (expr_accounts below _ _).bind ?_
    rintro ⟨right, us₁, h₁⟩ hp
    exact hp

/-- The `else` part of an `if` accounts for its tokens where fewer tokens are accounted for. -/
theorem alternative_accounts (below : AccountableBelow endLine tokens) (depth : Depth) :
    Accounts endLine tokens Remaining.rest (alternative endLine depth tokens) := by
  cases tokens with
  | nil =>
    rw [alternative]
    exact List.suffix_refl []
  | cons t us =>
    rw [alternative]
    split
    · have next : Accountable endLine us := below us (Nat.lt_succ_self _)
      refine ((next.block _ _).of_suffix (List.suffix_cons t us)).bind ?_
      rintro ⟨body, us₁, h₁⟩ hp
      exact hp
    · exact List.suffix_refl _

/-- Further expressions of a list account for their tokens where fewer tokens are accounted
for. -/
theorem moreExprs_accounts (below : AccountableBelow endLine tokens) (depth : Depth)
    (close : TokenKind) :
    Accounts endLine tokens Parsed.rest (moreExprs endLine depth close tokens) := by
  cases tokens with
  | nil =>
    rw [moreExprs]
    exact accounts_rejectNext _
  | cons t us =>
    rw [moreExprs]
    split
    · have next : Accountable endLine us := below us (Nat.lt_succ_self _)
      refine ((next.expr _ _).of_suffix (List.suffix_cons t us)).bind ?_
      rintro ⟨first, us₁, h₁⟩ hp
      refine (((below us₁ (Nat.lt_succ_of_lt h₁)).moreExprs _ _).of_suffix hp).bind ?_
      rintro ⟨others, us₂, h₂⟩ hq
      exact hq
    · refine (expect_accounts _ _ (t :: us)).bind ?_
      rintro ⟨close, us₁, h₁⟩ hp
      exact hp

/-- Blocks account for their tokens where fewer tokens are accounted for. -/
theorem block_accounts (below : AccountableBelow endLine tokens) (depth : Depth)
    (due : Expectation) :
    Accounts endLine tokens Parsed.rest (block endLine depth due tokens) := by
  rw [block]
  refine (expect_accounts _ _ tokens).bind ?_
  rintro ⟨brace, us₁, h₁⟩ hp
  refine (((below us₁ h₁).blockStatements _).of_suffix hp).bind ?_
  rintro ⟨statements, us₂, h₂⟩ hq
  exact hq

/-- Expressions that stand as statements account for their tokens where fewer tokens are accounted
for. -/
theorem exprStmt_accounts (below : AccountableBelow endLine tokens) (depth : Depth) :
    Accounts endLine tokens Parsed.rest (exprStmt endLine depth tokens) := by
  rw [exprStmt]
  refine (expr_accounts below _ _).bind ?_
  rintro ⟨value, us₁, h₁⟩ hp
  refine ((terminator_accounts _ us₁).of_suffix hp).bind ?_
  rintro ⟨_, us₂, h₂⟩ hq
  exact hq

/-- Statements account for their tokens where fewer tokens are accounted for. -/
theorem stmt_accounts (below : AccountableBelow endLine tokens) (depth : Depth) :
    Accounts endLine tokens Parsed.rest (stmt endLine depth tokens) := by
  cases tokens with
  | nil =>
    rw [stmt]
    exact exprStmt_accounts below depth
  | cons t us =>
    have htail : us <:+ t :: us := List.suffix_cons t us
    rw [stmt]
    split
    · refine ((expectIdent_accounts _ us).of_suffix htail).bind ?_
      rintro ⟨target, us₁, h₁⟩ hp
      refine ((expect_accounts _ _ us₁).of_suffix hp).bind ?_
      rintro ⟨equals, us₂, h₂⟩ hq
      have hlt₂ : us₂.length < (t :: us).length := Nat.lt_succ_of_lt (Nat.lt_trans h₂ h₁)
      refine (((below us₂ hlt₂).expr _ _).of_suffix hq).bind ?_
      rintro ⟨value, us₃, h₃⟩ hr
      refine ((terminator_accounts _ us₃).of_suffix hr).bind ?_
      rintro ⟨_, us₄, h₄⟩ hs
      exact hs
    · refine (((below us (Nat.lt_succ_self _)).expr _ _).of_suffix htail).bind ?_
      rintro ⟨value, us₁, h₁⟩ hp
      refine ((terminator_accounts _ us₁).of_suffix hp).bind ?_
      rintro ⟨_, us₂, h₂⟩ hq
      exact hq
    · exact exprStmt_accounts below depth

/-- The statements of a block account for their tokens where fewer tokens are accounted for. -/
theorem blockStatements_accounts (below : AccountableBelow endLine tokens) (depth : Depth) :
    Accounts endLine tokens Parsed.rest (blockStatements endLine depth tokens) := by
  cases tokens with
  | nil =>
    rw [blockStatements]
    exact accounts_reject_end _
  | cons t us =>
    rw [blockStatements]
    split
    · exact List.suffix_cons t us
    · refine (stmt_accounts below depth).bind ?_
      rintro ⟨first, us₁, h₁⟩ hp
      refine (((below us₁ h₁).blockStatements _).of_suffix hp).bind ?_
      rintro ⟨others, us₂, h₂⟩ hq
      exact hq

/-- The functions of the parser account for what they do with any tokens. -/
theorem accountable (tokens : List Token) : Accountable endLine tokens := by
  have below : AccountableBelow endLine tokens := fun us _ => accountable us
  exact ⟨expr_accounts below, continuations_accounts below, continuation_accounts below,
    alternative_accounts below, exprList_accounts below, moreExprs_accounts below,
    block_accounts below, blockStatements_accounts below, stmt_accounts below⟩
termination_by tokens.length

/-- The statements up to the end of the input account for all tokens. -/
theorem statements_accounts (depth : Depth) (tokens : List Token) :
    Accounts endLine tokens (fun _ => []) (statements endLine depth tokens) := by
  match tokens with
  | [] =>
    rw [statements]
    exact List.suffix_refl []
  | t :: us =>
    rw [statements]
    refine ((accountable (t :: us)).stmt depth).bind ?_
    rintro ⟨first, us₁, h₁⟩ hp
    exact ((statements_accounts depth us₁).of_suffix hp).bind fun others _ => List.nil_suffix
termination_by tokens.length
decreasing_by exact h₁

end Functions

end Surface.Parser

namespace Surface

open Grammar

section Desugar

variable {α β : Type} {P : Nat → Prop}

/-- If lowering fails, the line of the rejection has the property. -/
def FailsOn (P : Nat → Prop) (r : Except ParseError α) : Prop :=
  ∀ e, r = .error e → P e.line

/-- What succeeds does not fail. -/
theorem failsOn_ok (a : α) : FailsOn P (.ok a) := by
  intro e he
  cases he

/-- Two steps of lowering one after the other. -/
theorem FailsOn.bind {x : Except ParseError α} {f : α → Except ParseError β} (hx : FailsOn P x)
    (hf : ∀ a, FailsOn P (f a)) : FailsOn P (x >>= f) := by
  cases x with
  | ok a => exact hf a
  | error e =>
    rintro _ ⟨⟩
    exact hx e rfl

/-- A bad arrow is reported for its own line. -/
theorem failsOn_applyArrow {line : Nat} (hline : P line) (value target : Ast.Expr) :
    FailsOn P (applyArrow value target line) := by
  unfold applyArrow
  split
  · exact failsOn_ok _
  · rintro _ ⟨⟩
    exact hline

/-- Lowering goes down a level first, and a program that is nested too deeply is reported for its
first line. -/
theorem failsOn_desugar (hfirst : P 1) (e : Expr) (depth : Depth)
    (h : ∀ inner, depth.down? = some inner → FailsOn P (e.desugar depth)) :
    FailsOn P (e.desugar depth) := by
  cases hdown : depth.down? with
  | none =>
    rw [Expr.desugar.eq_def, hdown]
    rintro _ ⟨⟩
    exact hfirst
  | some inner => exact h inner hdown

mutual

/-- A derived expression whose tokens are on lines with the property fails on such a line. -/
theorem derives_failsOn (hfirst : P 1) {s : Stratum} {ts : List Token} {e : Expr}
    (h : Derives s ts e) (hts : Throughout (P ·.line) ts) (depth : Depth) :
    FailsOn P (e.desugar depth) := by
  match h with
  | .arrow hl _ hr =>
    refine failsOn_desugar hfirst _ depth fun inner hinner => ?_
    rw [Expr.desugar, hinner]
    refine (derives_failsOn hfirst hl hts.left inner).bind fun value => ?_
    refine (derives_failsOn hfirst hr hts.right.tail inner).bind fun target => ?_
    exact failsOn_applyArrow hts.right.head value target
  | .binary op hl _ hr =>
    refine failsOn_desugar hfirst _ depth fun inner hinner => ?_
    rw [Expr.desugar, hinner]
    refine (derives_failsOn hfirst hl hts.left inner).bind fun left => ?_
    exact (derives_failsOn hfirst hr hts.right.tail inner).bind fun right => failsOn_ok _
  | .unary op _ h =>
    refine failsOn_desugar hfirst _ depth fun inner hinner => ?_
    rw [Expr.desugar, hinner]
    exact (derives_failsOn hfirst h hts.tail inner).bind fun operand => failsOn_ok _
  | .call hcallee _ hargs _ =>
    refine failsOn_desugar hfirst _ depth fun inner hinner => ?_
    rw [Expr.desugar, hinner]
    refine (derives_failsOn hfirst hcallee hts.left inner).bind fun callee => ?_
    exact (args_failsOn hfirst hargs hts.right.tail.left inner).bind fun args => failsOn_ok _
  | .index harray _ hindex _ =>
    refine failsOn_desugar hfirst _ depth fun inner hinner => ?_
    rw [Expr.desugar, hinner]
    refine (derives_failsOn hfirst harray hts.left inner).bind fun array => ?_
    exact (derives_failsOn hfirst hindex hts.right.tail.left inner).bind fun index => failsOn_ok _
  | .integer _ _ | .kwTrue _ | .kwFalse _ | .ident _ =>
    refine failsOn_desugar hfirst _ depth fun inner hinner => ?_
    rw [Expr.desugar, hinner]
    exact failsOn_ok _
  | .group _ h _ => exact derives_failsOn hfirst h hts.tail.left depth
  | .function _ _ _ hbody =>
    refine failsOn_desugar hfirst _ depth fun inner hinner => ?_
    rw [Expr.desugar, hinner]
    exact (braces_failsOn hfirst hbody hts.tail.right.tail inner).bind fun body => failsOn_ok _
  | .array _ helements _ =>
    refine failsOn_desugar hfirst _ depth fun inner hinner => ?_
    rw [Expr.desugar, hinner]
    exact (args_failsOn hfirst helements hts.tail.left inner).bind fun elements => failsOn_ok _
  | .cond _ hcondition hconsequence =>
    refine failsOn_desugar hfirst _ depth fun inner hinner => ?_
    rw [Expr.desugar, hinner]
    refine (derives_failsOn hfirst hcondition hts.tail.left inner).bind fun condition => ?_
    exact (braces_failsOn hfirst hconsequence hts.tail.right inner).bind fun consequence =>
      failsOn_ok _
  | .condElse _ hcondition hconsequence _ halternative =>
    refine failsOn_desugar hfirst _ depth fun inner hinner => ?_
    rw [Expr.desugar, hinner]
    refine (derives_failsOn hfirst hcondition hts.tail.left inner).bind fun condition => ?_
    refine (braces_failsOn hfirst hconsequence hts.tail.right.left inner).bind fun consequence => ?_
    have hblock := braces_failsOn hfirst halternative hts.tail.right.right.tail inner
    exact hblock.bind fun alternative => failsOn_ok _
  | .climb _ h => exact derives_failsOn hfirst h hts depth
termination_by structural h

/-- Derived arguments fail on a line with the property. -/
theorem args_failsOn (hfirst : P 1) {ts : List Token} {es : List Expr} (h : Args ts es)
    (hts : Throughout (P ·.line) ts) (depth : Depth) : FailsOn P (desugarList depth es) := by
  match h with
  | .none => exact failsOn_ok _
  | .some h => exact items_failsOn hfirst h hts depth
termination_by structural h

/-- Derived expressions fail on a line with the property. -/
theorem items_failsOn (hfirst : P 1) {ts : List Token} {es : List Expr} (h : Items ts es)
    (hts : Throughout (P ·.line) ts) (depth : Depth) : FailsOn P (desugarList depth es) := by
  match h with
  | .last h => exact (derives_failsOn hfirst h hts depth).bind fun first => failsOn_ok _
  | .cons h _ hothers =>
    refine (derives_failsOn hfirst h hts.left depth).bind fun first => ?_
    exact (items_failsOn hfirst hothers hts.right.tail depth).bind fun others => failsOn_ok _
termination_by structural h

/-- A derived block fails on a line with the property. -/
theorem braces_failsOn (hfirst : P 1) {ts : List Token} {body : Block} (h : Braces ts body)
    (hts : Throughout (P ·.line) ts) (depth : Depth) : FailsOn P (body.desugar depth) := by
  match h with
  | .mk _ hss _ =>
    exact (statements_failsOn hfirst hss hts.tail.left depth).bind fun ss => failsOn_ok _
termination_by structural h

/-- A derived statement fails on a line with the property. -/
theorem statement_failsOn (hfirst : P 1) {ts : List Token} {s : Stmt} (h : Statement ts s)
    (hts : Throughout (P ·.line) ts) (depth : Depth) : FailsOn P (s.desugar depth) := by
  match h with
  | .var _ _ _ h =>
    exact (derives_failsOn hfirst h hts.tail.tail.tail depth).bind fun e => failsOn_ok _
  | .ret _ h => exact (derives_failsOn hfirst h hts.tail depth).bind fun e => failsOn_ok _
  | .expr h => exact (derives_failsOn hfirst h hts depth).bind fun e => failsOn_ok _
termination_by structural h

/-- Derived statements fail on a line with the property. -/
theorem statements_failsOn (hfirst : P 1) {ts : List Token} {ss : List Stmt} (h : Statements ts ss)
    (hts : Throughout (P ·.line) ts) (depth : Depth) : FailsOn P (desugarStatements depth ss) := by
  match h with
  | .nil => exact failsOn_ok _
  | .last h => exact (statement_failsOn hfirst h hts depth).bind fun first => failsOn_ok _
  | .cons h _ hothers =>
    refine (statement_failsOn hfirst h hts.left depth).bind fun first => ?_
    exact (statements_failsOn hfirst hothers hts.right.tail depth).bind fun others => failsOn_ok _
  | .closed h _ _ hothers =>
    refine (statement_failsOn hfirst h hts.left depth).bind fun first => ?_
    exact (statements_failsOn hfirst hothers hts.right depth).bind fun others => failsOn_ok _
termination_by structural h

end

end Desugar

end Surface

open Surface Surface.Parser Surface.Grammar

/-- The lines of a text, counted by its line feeds. -/
def IsLineOf (source : String) (line : Nat) : Prop :=
  1 ≤ line ∧ line ≤ 1 + source.toList.count '\n'

/-- The tokens of a text and its end are on lines of the text. -/
theorem isLineOf_tokenStream (source : String) :
    IsLineOf source (tokenStream source).endLine ∧
      Throughout (IsLineOf source ·.line) (tokenStream source).tokens := by
  have hend : (tokenStream source).endLine ≤ 1 + source.toList.count '\n' :=
    Nat.le_of_eq (endLine_scanFrom 1 source.toList)
  obtain ⟨hfirst, htokens⟩ := line_mem_scanFrom 1 source.toList
  refine ⟨⟨hfirst, hend⟩, fun t ht => ?_⟩
  exact ⟨(htokens t ht).1, Nat.le_trans (htokens t ht).2 hend⟩

/-- A text that is one numeral of too many digits is not read at all. -/
theorem parse_eq_oversizedLiteral {depth inner : Depth} (hdepth : depth.down? = some inner)
    {digits : String} (hdigits : digits.toList.all Char.isDigit = true)
    (hlong : Text.maxDigits < digits.length) :
    parse depth digits = .error .oversizedLiteral := by
  have hne : digits.toList ≠ [] := by
    intro hnil
    rw [← String.length_toList, hnil] at hlong
    exact Nat.not_lt_zero _ hlong
  have hscan := @scanFrom_digits 1 [] digits hne hdigits nofun
  rw [List.append_nil, scanFrom_nil] at hscan
  have htokens : (tokenStream digits).tokens = [⟨.integer, digits, 1⟩] := hscan
  -- The numeral stops every function that the parser goes down through to reach it.
  let t : Token := ⟨.integer, digits, 1⟩
  have hliteral : literal t = .error .oversizedLiteral := by
    rw [literal, if_pos hlong]
  have hoperand : operand (tokenStream digits).endLine inner [t] = .error .oversizedLiteral := by
    rw [operand.eq_def]
    simp only [hliteral, t]
    rfl
  have hexpr : Parser.expr (tokenStream digits).endLine depth Binding.lowest [t] =
      .error .oversizedLiteral := by
    rw [Parser.expr, hdepth]
    simp only [hoperand]
    rfl
  have hstmt : Parser.stmt (tokenStream digits).endLine depth [t] = .error .oversizedLiteral := by
    rw [Parser.stmt.eq_def]
    change exprStmt _ depth [t] = _
    rw [exprStmt, hexpr]
    rfl
  rw [parse, Surface.parse, htokens, Parser.statements, hstmt]
  rfl

/-- What keeps a text from being read as a surface tree: it is rejected for one of its lines, or one
of its numerals has too many digits. -/
theorem surface_parse_eq_error {depth : Depth} {source : String} {failure : ParseFailure}
    (h : Surface.parse depth source = .error failure) :
    (∃ e, failure = .rejected e ∧ IsLineOf source e.line) ∨
      failure = .oversizedLiteral ∧ ∃ t ∈ (tokenStream source).tokens,
        t.kind = .integer ∧ Text.maxDigits < t.text.length := by
  obtain ⟨hend, hlines⟩ := isLineOf_tokenStream source
  have haccounts := @statements_accounts (tokenStream source).endLine depth
    (tokenStream source).tokens
  rw [show Parser.statements _ depth _ = _ from h] at haccounts
  cases failure with
  | oversizedLiteral => exact .inr ⟨rfl, haccounts⟩
  | rejected e =>
    refine .inl ⟨e, rfl, ?_⟩
    obtain hline | ⟨t, ht, hline⟩ := haccounts
    · exact hline ▸ hend
    · exact hline ▸ hlines t ht

/-- What keeps a surface tree from being lowered is on a line of its text. -/
theorem desugar_eq_error {depth : Depth} {source : String} {ss : List Surface.Stmt}
    (hss : Surface.parse depth source = .ok ss) {e : ParseError}
    (h : desugar depth ss = .error e) : IsLineOf source e.line := by
  have hfirst : IsLineOf source 1 := ⟨Nat.le_refl 1, Nat.le_add_right 1 _⟩
  have hfails := statements_failsOn hfirst (statements_sound hss) (isLineOf_tokenStream source).2
    depth
  match hlower : desugarStatements depth ss with
  | .ok ss' =>
    rw [desugar, hlower] at h
    cases h
  | .error e' =>
    rw [desugar, hlower] at h
    cases h
    exact hfails e hlower

/-- Reading a text gives a program or rejects the text for one of its lines, unless one of its
numerals has too many digits. Then it may end without either, as it does for a text that is only
such a numeral. -/
theorem parse_outcome (depth : Depth) :
    (∀ source,
      (∃ p, parse depth source = .ok p) ∨
      (∃ e, parse depth source = .error (.rejected e) ∧ IsLineOf source e.line) ∨
      parse depth source = .error .oversizedLiteral ∧ ∃ t ∈ (tokenStream source).tokens,
        t.kind = .integer ∧ Text.maxDigits < t.text.length) ∧
    ∀ inner digits, depth.down? = some inner → digits.toList.all Char.isDigit = true →
      Text.maxDigits < digits.length → parse depth digits = .error .oversizedLiteral := by
  refine ⟨fun source => ?_, fun _ _ hdepth hdigits => parse_eq_oversizedLiteral hdepth hdigits⟩
  match hsurface : Surface.parse depth source with
  | .error failure =>
    have hparse : parse depth source = .error failure := by
      rw [parse, hsurface]
      rfl
    rw [hparse]
    obtain ⟨e, rfl, hline⟩ | ⟨rfl, hlong⟩ := surface_parse_eq_error hsurface
    · exact .inr (.inl ⟨e, rfl, hline⟩)
    · exact .inr (.inr ⟨rfl, hlong⟩)
  | .ok ss =>
    have hparse : parse depth source = (desugar depth ss).mapError .rejected := by
      rw [parse, hsurface]
      rfl
    rw [hparse]
    match hlower : desugar depth ss with
    | .ok p => exact .inl ⟨p, rfl⟩
    | .error e => exact .inr (.inl ⟨e, rfl, desugar_eq_error hsurface hlower⟩)

end EtherLang
