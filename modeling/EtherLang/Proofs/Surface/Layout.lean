import EtherLang.Surface.Parser

/-!
# Reading without lines

How a text is laid out shows in the lines of its tokens and in nothing else. Reading tokens that
have lost their lines gives the tree without its lines, or fails with the same wording: no function
of the parser looks at a line except to pass it on. So two texts with the same tokens apart from
lines are read alike, by way of the reading that knows no lines.
-/

namespace EtherLang

section Results

variable {ε ω α β γ δ : Type}

/-- Both results are values in the one relation, or both are failures in the other one. -/
def ResultsAlike (failures : ε → ε → Prop) (values : α → β → Prop) :
    Except ε α → Except ε β → Prop
  | .ok a, .ok b => values a b
  | .error x, .error y => failures x y
  | _, _ => False

variable {failures : ε → ε → Prop} {values : α → β → Prop} {values' : γ → δ → Prop}

/-- Alike computations one after the other. -/
theorem ResultsAlike.bind {x : Except ε α} {y : Except ε β} {f : α → Except ε γ}
    {g : β → Except ε δ} (hxy : ResultsAlike failures values x y)
    (hfg : ∀ a b, values a b → ResultsAlike failures values' (f a) (g b)) :
    ResultsAlike failures values' (x >>= f) (y >>= g) := by
  match x, y with
  | .ok a, .ok b => exact hfg a b hxy
  | .error _, .error _ => exact hxy

/-- The relation between values may be weakened. -/
theorem ResultsAlike.imp {weaker : α → β → Prop} {x : Except ε α} {y : Except ε β}
    (hxy : ResultsAlike failures values x y) (himp : ∀ a b, values a b → weaker a b) :
    ResultsAlike failures weaker x y := by
  match x, y with
  | .ok a, .ok b => exact himp a b hxy
  | .error _, .error _ => exact hxy

/-- Values that are changed in related ways. -/
theorem ResultsAlike.map {x : Except ε α} {y : Except ε β} {f : α → γ} {g : β → δ}
    (hxy : ResultsAlike failures values x y) (hfg : ∀ a b, values a b → values' (f a) (g b)) :
    ResultsAlike failures values' (x.map f) (y.map g) := by
  match x, y with
  | .ok a, .ok b => exact hfg a b hxy
  | .error _, .error _ => exact hxy

/-- Failures that are changed in the same way. -/
theorem ResultsAlike.mapError {ε' : Type} {failures' : ε' → ε' → Prop} {x : Except ε α}
    {y : Except ε β} {k : ε → ε'} (hxy : ResultsAlike failures values x y)
    (hk : ∀ e e', failures e e' → failures' (k e) (k e')) :
    ResultsAlike failures' values (x.mapError k) (y.mapError k) := by
  match x, y with
  | .ok _, .ok _ => exact hxy
  | .error e, .error e' => exact hk e e' hxy

/-- Two results that are alike a third one, whose value is made of theirs, are alike. -/
theorem ResultsAlike.of_common {wording : ε → ω} {f : α → β} {x y : Except ε α} {z : Except ε β}
    (hx : ResultsAlike (fun e e' => wording e = wording e') (fun a b => b = f a) x z)
    (hy : ResultsAlike (fun e e' => wording e = wording e') (fun a b => b = f a) y z) :
    ResultsAlike (fun e e' => wording e = wording e') (fun a b => f a = f b) x y := by
  match x, y, z with
  | .ok a, .ok b, .ok c => exact hx.symm.trans hy
  | .error e, .error e', .error e'' => exact Eq.trans hx (Eq.symm hy)

end Results

/-- A token without its line. -/
def Token.eraseLine (t : Token) : Token :=
  ⟨t.kind, t.text, 0⟩

/-- A name without its line. -/
def Ident.eraseLine (i : Ident) : Ident :=
  ⟨i.name, 0⟩

/-- What is told about a failure to read a text, apart from its line. -/
def ParseFailure.wording : ParseFailure → Option String
  | .rejected e => some e.message
  | .oversizedLiteral => none

namespace Surface

mutual

/-- An expression without its lines. -/
def Expr.eraseLines : Expr → Expr
  | .integer digits _ => .integer digits 0
  | .boolean value _ => .boolean value 0
  | .ident name _ => .ident name 0
  | .unary op operand _ => .unary op operand.eraseLines 0
  | .binary op left right _ => .binary op left.eraseLines right.eraseLines 0
  | .function params body _ => .function (params.map Ident.eraseLine) body.eraseLines 0
  | .call callee args _ => .call callee.eraseLines (eraseLinesList args) 0
  | .index array index _ => .index array.eraseLines index.eraseLines 0
  | .array elements _ => .array (eraseLinesList elements) 0
  | .arrow value target _ => .arrow value.eraseLines target.eraseLines 0
  | .cond condition consequence none _ =>
    .cond condition.eraseLines consequence.eraseLines none 0
  | .cond condition consequence (some alternative) _ =>
    .cond condition.eraseLines consequence.eraseLines (some alternative.eraseLines) 0

/-- Expressions without their lines. -/
def eraseLinesList : List Expr → List Expr
  | [] => []
  | first :: others => first.eraseLines :: eraseLinesList others

/-- A statement without its lines. -/
def Stmt.eraseLines : Stmt → Stmt
  | .var target value _ => .var target.eraseLine value.eraseLines 0
  | .ret value _ => .ret value.eraseLines 0
  | .expr value _ => .expr value.eraseLines 0

/-- A block without its lines. -/
def Block.eraseLines : Block → Block
  | .mk statements _ => .mk (eraseLinesStatements statements) 0

/-- Statements without their lines. -/
def eraseLinesStatements : List Stmt → List Stmt
  | [] => []
  | first :: others => first.eraseLines :: eraseLinesStatements others

end

/-- An `if` without its lines. -/
theorem Expr.eraseLines_cond (condition : Expr) (consequence : Block) (alternative : Option Block)
    (line : Nat) :
    (Expr.cond condition consequence alternative line).eraseLines =
      .cond condition.eraseLines consequence.eraseLines (alternative.map Block.eraseLines) 0 := by
  cases alternative <;> rfl

/-- What is an `if` does not depend on lines. -/
theorem Expr.isCond_eraseLines (e : Expr) : e.eraseLines.isCond = e.isCond := by
  match e with
  | .integer .. | .boolean .. | .ident .. | .unary .. | .binary .. | .function .. => rfl
  | .call .. | .index .. | .array .. | .arrow .. => rfl
  | .cond _ _ none _ | .cond _ _ (some _) _ => rfl

namespace Parser

section Readings

variable {α β : Type} {tokens tokens' : List Token}

/-- The second reading is the first one without lines. -/
def Parsed.Erases (f : α → α) (p : Parsed α tokens) (q : Parsed α tokens') : Prop :=
  q.value = f p.value ∧ q.rest = p.rest.map Token.eraseLine

/-- The second reading is the first one without lines. -/
def Remaining.Erases (f : α → α) (p : Remaining α tokens) (q : Remaining α tokens') : Prop :=
  q.value = f p.value ∧ q.rest = p.rest.map Token.eraseLine

/-- Both readings succeed with related results, or both fail with the same wording. -/
abbrev ReadAlike (values : α → β → Prop) : Except ParseFailure α → Except ParseFailure β → Prop :=
  ResultsAlike (fun x y => x.wording = y.wording) values

variable {endLine : Nat} {values : α → β → Prop}

/-- Rejections are compared by the wording of their causes. -/
theorem reject_alike {cause cause' : ParseError.Cause} {line line' : Nat}
    (h : cause.message = cause'.message) :
    ReadAlike values (reject cause line) (reject cause' line') :=
  congrArg some h

/-- The next token without its line. -/
theorem peek_eraseLine (endLine : Nat) (tokens : List Token) :
    peek 0 (tokens.map Token.eraseLine) = (peek endLine tokens).eraseLine := by
  cases tokens <;> rfl

/-- A token that is not the one that is due. -/
theorem rejectNext_alike (due : Expectation) (tokens : List Token) :
    ReadAlike values (rejectNext endLine due tokens)
      (rejectNext 0 due (tokens.map Token.eraseLine)) := by
  rw [rejectNext, rejectNext, peek_eraseLine endLine]
  exact reject_alike (by rfl)

/-- A token that is due. -/
theorem expect_alike (kind : TokenKind) (due : Expectation) (tokens : List Token) :
    ReadAlike (Parsed.Erases Token.eraseLine) (expect endLine kind due tokens)
      (expect 0 kind due (tokens.map Token.eraseLine)) := by
  cases tokens with
  | nil => exact rejectNext_alike due []
  | cons t us =>
    rw [List.map_cons, expect, expect]
    change ReadAlike _ _ (if t.kind = kind then _ else _)
    split
    · exact ⟨rfl, rfl⟩
    · exact rejectNext_alike due (t :: us)

/-- A name that is due. -/
theorem expectIdent_alike (due : Expectation) (tokens : List Token) :
    ReadAlike (Parsed.Erases Ident.eraseLine) (expectIdent endLine due tokens)
      (expectIdent 0 due (tokens.map Token.eraseLine)) := by
  refine (expect_alike .ident due tokens).bind ?_
  rintro ⟨t, us, h⟩ ⟨_, _, h'⟩ ⟨rfl, rfl⟩
  exact ⟨rfl, rfl⟩

/-- The end of a statement. -/
theorem terminator_alike (closed : Bool) (tokens : List Token) :
    ReadAlike (Remaining.Erases id) (terminator endLine closed tokens)
      (terminator 0 closed (tokens.map Token.eraseLine)) := by
  cases tokens with
  | nil => exact ⟨rfl, rfl⟩
  | cons t us =>
    rw [List.map_cons, terminator, terminator]
    change ReadAlike _ _
      (if t.kind = .semicolon then _ else if closed || t.kind = .rightBrace then _ else _)
    split
    · exact ⟨rfl, rfl⟩
    · split
      · exact ⟨rfl, rfl⟩
      · exact rejectNext_alike .terminator (t :: us)

/-- The parameters behind a first one. -/
theorem moreParams_alike (tokens : List Token) :
    ReadAlike (Parsed.Erases (List.map Ident.eraseLine)) (moreParams endLine tokens)
      (moreParams 0 (tokens.map Token.eraseLine)) := by
  match tokens with
  | [] =>
    rw [List.map_nil, moreParams, moreParams]
    exact rejectNext_alike .parametersClose []
  | ⟨kind, text, line⟩ :: us =>
    rw [List.map_cons, moreParams, moreParams]
    cases kind with
    | comma =>
      refine (expectIdent_alike .parameter us).bind ?_
      rintro ⟨param, us₁, h₁⟩ ⟨_, _, h₁'⟩ ⟨rfl, rfl⟩
      refine (moreParams_alike us₁).bind ?_
      rintro ⟨params, us₂, h₂⟩ ⟨_, _, h₂'⟩ ⟨rfl, rfl⟩
      exact ⟨rfl, rfl⟩
    | bar => exact ⟨rfl, rfl⟩
    | _ => exact rejectNext_alike .parametersClose (_ :: us)
termination_by tokens.length
decreasing_by simp only [List.length_cons]; omega

/-- The parameters of a function. -/
theorem params_alike (tokens : List Token) :
    ReadAlike (Parsed.Erases (List.map Ident.eraseLine)) (params endLine tokens)
      (params 0 (tokens.map Token.eraseLine)) := by
  cases tokens with
  | nil => exact rejectNext_alike .parameter []
  | cons t us =>
    rw [List.map_cons, params, params]
    change ReadAlike _ _ (if t.kind = .bar then _ else _)
    split
    · exact ⟨rfl, rfl⟩
    · refine (expectIdent_alike .parameter (t :: us)).bind ?_
      rintro ⟨param, us₁, h₁⟩ ⟨_, _, h₁'⟩ ⟨rfl, rfl⟩
      refine (moreParams_alike us₁).bind ?_
      rintro ⟨params, us₂, h₂⟩ ⟨_, _, h₂'⟩ ⟨rfl, rfl⟩
      exact ⟨rfl, rfl⟩

/-- A numeral. -/
theorem literal_alike (t : Token) :
    ReadAlike (fun e e' => e' = e.eraseLines) (literal t) (literal t.eraseLine) := by
  rw [literal, literal]
  change ReadAlike _ _ (if t.text.length > Text.maxDigits then _
    else if Text.ofAsciiDigits t.text ≤ Integer.maxValue then _ else _)
  split
  · rfl
  · split
    · rfl
    · exact reject_alike (by rfl)

end Readings

section Functions

/-- The functions of the parser read tokens without lines as they read the tokens. -/
structure Mirrored (endLine : Nat) (tokens : List Token) : Prop where
  expr : ∀ depth strength, ReadAlike (Parsed.Erases Expr.eraseLines)
    (expr endLine depth strength tokens) (expr 0 depth strength (tokens.map Token.eraseLine))
  continuations : ∀ depth strength left, ReadAlike (Remaining.Erases Expr.eraseLines)
    (continuations endLine depth strength left tokens)
    (continuations 0 depth strength left.eraseLines (tokens.map Token.eraseLine))
  continuation : ∀ depth left c line, ReadAlike (Parsed.Erases Expr.eraseLines)
    (continuation endLine depth left c line tokens)
    (continuation 0 depth left.eraseLines c 0 (tokens.map Token.eraseLine))
  alternative : ∀ depth, ReadAlike (Remaining.Erases (Option.map Block.eraseLines))
    (alternative endLine depth tokens) (alternative 0 depth (tokens.map Token.eraseLine))
  exprList : ∀ depth close, ReadAlike (Parsed.Erases eraseLinesList)
    (exprList endLine depth close tokens) (exprList 0 depth close (tokens.map Token.eraseLine))
  moreExprs : ∀ depth close, ReadAlike (Parsed.Erases eraseLinesList)
    (moreExprs endLine depth close tokens) (moreExprs 0 depth close (tokens.map Token.eraseLine))
  block : ∀ depth due, ReadAlike (Parsed.Erases Block.eraseLines)
    (block endLine depth due tokens) (block 0 depth due (tokens.map Token.eraseLine))
  blockStatements : ∀ depth, ReadAlike (Parsed.Erases eraseLinesStatements)
    (blockStatements endLine depth tokens) (blockStatements 0 depth (tokens.map Token.eraseLine))
  stmt : ∀ depth, ReadAlike (Parsed.Erases Stmt.eraseLines)
    (stmt endLine depth tokens) (stmt 0 depth (tokens.map Token.eraseLine))

/-- The functions of the parser read fewer tokens without lines as they read these tokens. -/
def MirroredBelow (endLine : Nat) (tokens : List Token) : Prop :=
  ∀ us : List Token, us.length < tokens.length → Mirrored endLine us

variable {endLine : Nat} {tokens : List Token}

/-- Operands are mirrored where fewer tokens are. -/
theorem operand_alike (below : MirroredBelow endLine tokens) (depth : Depth) :
    ReadAlike (Parsed.Erases Expr.eraseLines) (operand endLine depth tokens)
      (operand 0 depth (tokens.map Token.eraseLine)) := by
  cases tokens with
  | nil =>
    rw [List.map_nil, operand, operand]
    exact reject_alike (by rfl)
  | cons t us =>
    have next : Mirrored endLine us := below us (Nat.lt_succ_self _)
    have hliteral := literal_alike t
    obtain ⟨kind, text, line⟩ := t
    rw [List.map_cons, operand, operand]
    cases kind with
    | integer =>
      refine hliteral.bind ?_
      rintro value _ rfl
      exact ⟨rfl, rfl⟩
    | kwTrue | kwFalse | ident => exact ⟨rfl, rfl⟩
    | leftParen =>
      refine (next.expr _ _).bind ?_
      rintro ⟨inner, us₁, h₁⟩ ⟨_, _, h₁'⟩ ⟨rfl, rfl⟩
      refine (expect_alike .rightParen .groupClose us₁).bind ?_
      rintro ⟨close, us₂, h₂⟩ ⟨_, _, h₂'⟩ ⟨rfl, rfl⟩
      exact ⟨rfl, rfl⟩
    | minus | bang =>
      refine (next.expr _ _).bind ?_
      rintro ⟨inner, us₁, h₁⟩ ⟨_, _, h₁'⟩ ⟨rfl, rfl⟩
      exact ⟨rfl, rfl⟩
    | bar =>
      refine (params_alike us).bind ?_
      rintro ⟨names, us₁, h₁⟩ ⟨_, _, h₁'⟩ ⟨rfl, rfl⟩
      refine ((below us₁ (Nat.lt_succ_of_lt h₁)).block _ _).bind ?_
      rintro ⟨body, us₂, h₂⟩ ⟨_, _, h₂'⟩ ⟨rfl, rfl⟩
      exact ⟨rfl, rfl⟩
    | leftBracket =>
      refine (next.exprList _ _).bind ?_
      rintro ⟨elements, us₁, h₁⟩ ⟨_, _, h₁'⟩ ⟨rfl, rfl⟩
      exact ⟨rfl, rfl⟩
    | kwIf =>
      refine (next.expr _ _).bind ?_
      rintro ⟨condition, us₁, h₁⟩ ⟨_, _, h₁'⟩ ⟨rfl, rfl⟩
      refine ((below us₁ (Nat.lt_succ_of_lt h₁)).block _ _).bind ?_
      rintro ⟨consequence, us₂, h₂⟩ ⟨_, _, h₂'⟩ ⟨rfl, rfl⟩
      have hlt₂ : us₂.length < us.length + 1 := Nat.lt_succ_of_lt (Nat.lt_trans h₂ h₁)
      refine ((below us₂ hlt₂).alternative _).bind ?_
      rintro ⟨alternative, us₃, h₃⟩ ⟨_, _, h₃'⟩ ⟨rfl, rfl⟩
      exact ⟨(Expr.eraseLines_cond condition consequence alternative line).symm, rfl⟩
    | _ => exact reject_alike (by rfl)

/-- Expressions are mirrored where fewer tokens are. -/
theorem expr_alike (below : MirroredBelow endLine tokens) (depth : Depth) (strength : Nat) :
    ReadAlike (Parsed.Erases Expr.eraseLines) (expr endLine depth strength tokens)
      (expr 0 depth strength (tokens.map Token.eraseLine)) := by
  rw [expr, expr]
  split
  · exact reject_alike (by rfl)
  · refine (operand_alike below _).bind ?_
    rintro ⟨left, us₁, h₁⟩ ⟨_, _, h₁'⟩ ⟨rfl, rfl⟩
    refine ((below us₁ h₁).continuations _ _ _).bind ?_
    rintro ⟨whole, us₂, h₂⟩ ⟨_, _, h₂'⟩ ⟨rfl, rfl⟩
    exact ⟨rfl, rfl⟩

/-- The loop over continuations is mirrored where fewer tokens are. -/
theorem continuations_alike (below : MirroredBelow endLine tokens) (depth : Depth)
    (strength : Nat) (left : Expr) :
    ReadAlike (Remaining.Erases Expr.eraseLines) (continuations endLine depth strength left tokens)
      (continuations 0 depth strength left.eraseLines (tokens.map Token.eraseLine)) := by
  cases tokens with
  | nil =>
    rw [List.map_nil, continuations, continuations]
    exact ⟨rfl, rfl⟩
  | cons t us =>
    obtain ⟨kind, text, line⟩ := t
    rw [List.map_cons, continuations, continuations]
    dsimp only [Token.eraseLine]
    cases kind.continuation? with
    | none => exact ⟨rfl, rfl⟩
    | some c =>
      dsimp only
      split
      · have next : Mirrored endLine us := below us (Nat.lt_succ_self _)
        refine (next.continuation _ _ _ _).bind ?_
        rintro ⟨longer, us₁, h₁⟩ ⟨_, _, h₁'⟩ ⟨rfl, rfl⟩
        refine ((below us₁ (Nat.lt_succ_of_lt h₁)).continuations _ _ _).bind ?_
        rintro ⟨whole, us₂, h₂⟩ ⟨_, _, h₂'⟩ ⟨rfl, rfl⟩
        exact ⟨rfl, rfl⟩
      · exact ⟨rfl, rfl⟩

/-- Lists of expressions are mirrored where fewer tokens are. -/
theorem exprList_alike (below : MirroredBelow endLine tokens) (depth : Depth)
    (close : TokenKind) :
    ReadAlike (Parsed.Erases eraseLinesList) (exprList endLine depth close tokens)
      (exprList 0 depth close (tokens.map Token.eraseLine)) := by
  cases tokens with
  | nil =>
    rw [List.map_nil, exprList, exprList]
    exact reject_alike (by rfl)
  | cons t us =>
    rw [List.map_cons, exprList, exprList]
    change ReadAlike _ _ (if t.kind = close then _ else _)
    split
    · exact ⟨rfl, rfl⟩
    · refine (expr_alike below _ _).bind ?_
      rintro ⟨first, us₁, h₁⟩ ⟨_, _, h₁'⟩ ⟨rfl, rfl⟩
      refine ((below us₁ h₁).moreExprs _ _).bind ?_
      rintro ⟨others, us₂, h₂⟩ ⟨_, _, h₂'⟩ ⟨rfl, rfl⟩
      exact ⟨rfl, rfl⟩

/-- One continuation is mirrored where fewer tokens are. -/
theorem continuation_alike (below : MirroredBelow endLine tokens) (depth : Depth) (left : Expr)
    (c : Continuation) (line : Nat) :
    ReadAlike (Parsed.Erases Expr.eraseLines) (continuation endLine depth left c line tokens)
      (continuation 0 depth left.eraseLines c 0 (tokens.map Token.eraseLine)) := by
  cases c with
  | call =>
    rw [continuation, continuation]
    refine (exprList_alike below _ _).bind ?_
    rintro ⟨args, us₁, h₁⟩ ⟨_, _, h₁'⟩ ⟨rfl, rfl⟩
    exact ⟨rfl, rfl⟩
  | index =>
    rw [continuation, continuation]
    refine (expr_alike below _ _).bind ?_
    rintro ⟨position, us₁, h₁⟩ ⟨_, _, h₁'⟩ ⟨rfl, rfl⟩
    refine (expect_alike .rightBracket .indexClose us₁).bind ?_
    rintro ⟨close, us₂, h₂⟩ ⟨_, _, h₂'⟩ ⟨rfl, rfl⟩
    exact ⟨rfl, rfl⟩
  | arrow =>
    rw [continuation, continuation]
    refine (expr_alike below _ _).bind ?_
    rintro ⟨target, us₁, h₁⟩ ⟨_, _, h₁'⟩ ⟨rfl, rfl⟩
    exact ⟨rfl, rfl⟩
  | binary op =>
    rw [continuation, continuation]
    refine (expr_alike below _ _).bind ?_
    rintro ⟨right, us₁, h₁⟩ ⟨_, _, h₁'⟩ ⟨rfl, rfl⟩
    exact ⟨rfl, rfl⟩

/-- The `else` part of an `if` is mirrored where fewer tokens are. -/
theorem alternative_alike (below : MirroredBelow endLine tokens) (depth : Depth) :
    ReadAlike (Remaining.Erases (Option.map Block.eraseLines)) (alternative endLine depth tokens)
      (alternative 0 depth (tokens.map Token.eraseLine)) := by
  cases tokens with
  | nil =>
    rw [List.map_nil, alternative, alternative]
    exact ⟨rfl, rfl⟩
  | cons t us =>
    rw [List.map_cons, alternative, alternative]
    change ReadAlike _ _ (if t.kind = .kwElse then _ else _)
    split
    · have next : Mirrored endLine us := below us (Nat.lt_succ_self _)
      refine (next.block _ _).bind ?_
      rintro ⟨body, us₁, h₁⟩ ⟨_, _, h₁'⟩ ⟨rfl, rfl⟩
      exact ⟨rfl, rfl⟩
    · exact ⟨rfl, rfl⟩

/-- Further expressions of a list are mirrored where fewer tokens are. -/
theorem moreExprs_alike (below : MirroredBelow endLine tokens) (depth : Depth)
    (close : TokenKind) :
    ReadAlike (Parsed.Erases eraseLinesList) (moreExprs endLine depth close tokens)
      (moreExprs 0 depth close (tokens.map Token.eraseLine)) := by
  cases tokens with
  | nil =>
    rw [List.map_nil, moreExprs, moreExprs]
    exact rejectNext_alike _ []
  | cons t us =>
    rw [List.map_cons, moreExprs, moreExprs]
    change ReadAlike _ _ (if t.kind = .comma then _ else _)
    split
    · have next : Mirrored endLine us := below us (Nat.lt_succ_self _)
      refine (next.expr _ _).bind ?_
      rintro ⟨first, us₁, h₁⟩ ⟨_, _, h₁'⟩ ⟨rfl, rfl⟩
      refine ((below us₁ (Nat.lt_succ_of_lt h₁)).moreExprs _ _).bind ?_
      rintro ⟨others, us₂, h₂⟩ ⟨_, _, h₂'⟩ ⟨rfl, rfl⟩
      exact ⟨rfl, rfl⟩
    · refine (expect_alike close (.listClose close) (t :: us)).bind ?_
      rintro ⟨close, us₁, h₁⟩ ⟨_, _, h₁'⟩ ⟨rfl, rfl⟩
      exact ⟨rfl, rfl⟩

/-- Blocks are mirrored where fewer tokens are. -/
theorem block_alike (below : MirroredBelow endLine tokens) (depth : Depth) (due : Expectation) :
    ReadAlike (Parsed.Erases Block.eraseLines) (block endLine depth due tokens)
      (block 0 depth due (tokens.map Token.eraseLine)) := by
  rw [block, block]
  refine (expect_alike .leftBrace due tokens).bind ?_
  rintro ⟨brace, us₁, h₁⟩ ⟨_, _, h₁'⟩ ⟨rfl, rfl⟩
  refine ((below us₁ h₁).blockStatements _).bind ?_
  rintro ⟨statements, us₂, h₂⟩ ⟨_, _, h₂'⟩ ⟨rfl, rfl⟩
  exact ⟨rfl, rfl⟩

/-- Expressions that stand as statements are mirrored where fewer tokens are. -/
theorem exprStmt_alike (below : MirroredBelow endLine tokens) (depth : Depth) :
    ReadAlike (Parsed.Erases Stmt.eraseLines) (exprStmt endLine depth tokens)
      (exprStmt 0 depth (tokens.map Token.eraseLine)) := by
  rw [exprStmt, exprStmt]
  refine (expr_alike below _ _).bind ?_
  rintro ⟨value, us₁, h₁⟩ ⟨_, _, h₁'⟩ ⟨rfl, rfl⟩
  have hterminator : ReadAlike (Remaining.Erases id) (terminator endLine value.isCond us₁)
      (terminator 0 value.eraseLines.isCond (us₁.map Token.eraseLine)) := by
    rw [Expr.isCond_eraseLines]
    exact terminator_alike _ us₁
  refine hterminator.bind ?_
  rintro ⟨_, us₂, h₂⟩ ⟨_, _, h₂'⟩ ⟨-, rfl⟩
  refine ⟨?_, rfl⟩
  rw [peek_eraseLine endLine]
  rfl

/-- Statements are mirrored where fewer tokens are. -/
theorem stmt_alike (below : MirroredBelow endLine tokens) (depth : Depth) :
    ReadAlike (Parsed.Erases Stmt.eraseLines) (stmt endLine depth tokens)
      (stmt 0 depth (tokens.map Token.eraseLine)) := by
  cases tokens with
  | nil =>
    rw [List.map_nil, stmt, stmt]
    exact exprStmt_alike below depth
  | cons t us =>
    have hexpr := exprStmt_alike below depth
    obtain ⟨kind, text, line⟩ := t
    rw [List.map_cons, stmt, stmt]
    cases kind with
    | kwVar =>
      refine (expectIdent_alike .varName us).bind ?_
      rintro ⟨target, us₁, h₁⟩ ⟨_, _, h₁'⟩ ⟨rfl, rfl⟩
      refine (expect_alike .assign .varAssign us₁).bind ?_
      rintro ⟨equals, us₂, h₂⟩ ⟨_, _, h₂'⟩ ⟨rfl, rfl⟩
      have hlt₂ : us₂.length < us.length + 1 := Nat.lt_succ_of_lt (Nat.lt_trans h₂ h₁)
      refine ((below us₂ hlt₂).expr _ _).bind ?_
      rintro ⟨value, us₃, h₃⟩ ⟨_, _, h₃'⟩ ⟨rfl, rfl⟩
      refine (terminator_alike false us₃).bind ?_
      rintro ⟨_, us₄, h₄⟩ ⟨_, _, h₄'⟩ ⟨-, rfl⟩
      exact ⟨rfl, rfl⟩
    | kwReturn =>
      refine ((below us (Nat.lt_succ_self _)).expr _ _).bind ?_
      rintro ⟨value, us₁, h₁⟩ ⟨_, _, h₁'⟩ ⟨rfl, rfl⟩
      refine (terminator_alike false us₁).bind ?_
      rintro ⟨_, us₂, h₂⟩ ⟨_, _, h₂'⟩ ⟨-, rfl⟩
      exact ⟨rfl, rfl⟩
    | _ => exact hexpr

/-- The statements of a block are mirrored where fewer tokens are. -/
theorem blockStatements_alike (below : MirroredBelow endLine tokens) (depth : Depth) :
    ReadAlike (Parsed.Erases eraseLinesStatements) (blockStatements endLine depth tokens)
      (blockStatements 0 depth (tokens.map Token.eraseLine)) := by
  cases tokens with
  | nil =>
    rw [List.map_nil, blockStatements, blockStatements]
    exact reject_alike (by rfl)
  | cons t us =>
    rw [List.map_cons, blockStatements, blockStatements]
    change ReadAlike _ _ (if t.kind = .rightBrace then _ else _)
    split
    · exact ⟨rfl, rfl⟩
    · refine (stmt_alike below depth).bind ?_
      rintro ⟨first, us₁, h₁⟩ ⟨_, _, h₁'⟩ ⟨rfl, rfl⟩
      refine ((below us₁ h₁).blockStatements _).bind ?_
      rintro ⟨others, us₂, h₂⟩ ⟨_, _, h₂'⟩ ⟨rfl, rfl⟩
      exact ⟨rfl, rfl⟩

/-- The functions of the parser read any tokens without lines as they read the tokens. -/
theorem mirrored (tokens : List Token) : Mirrored endLine tokens := by
  have below : MirroredBelow endLine tokens := fun us _ => mirrored us
  exact ⟨expr_alike below, continuations_alike below, continuation_alike below,
    alternative_alike below, exprList_alike below, moreExprs_alike below, block_alike below,
    blockStatements_alike below, stmt_alike below⟩
termination_by tokens.length

/-- The statements up to the end of the input are read without lines as with them. -/
theorem statements_alike (endLine : Nat) (depth : Depth) (tokens : List Token) :
    ReadAlike (fun ss ss' => ss' = eraseLinesStatements ss) (statements endLine depth tokens)
      (statements 0 depth (tokens.map Token.eraseLine)) := by
  match tokens with
  | [] =>
    rw [List.map_nil, statements, statements]
    rfl
  | t :: us =>
    rw [List.map_cons, statements, statements]
    refine ((mirrored (t :: us)).stmt depth).bind ?_
    rintro ⟨first, us₁, h₁⟩ ⟨_, _, h₁'⟩ ⟨rfl, rfl⟩
    refine (statements_alike endLine depth us₁).bind ?_
    rintro others _ rfl
    rfl
termination_by tokens.length
decreasing_by exact h₁

end Functions

end Parser

end Surface

/-- The texts have the same tokens apart from the lines of these. -/
def SameTokens (a b : String) : Prop :=
  (tokenize a).map (fun t => (t.kind, t.text)) = (tokenize b).map fun t => (t.kind, t.text)

/-- Without their lines the tokens before the end of the input are the same. -/
theorem SameTokens.map_eraseLine {a b : String} (h : SameTokens a b) :
    (tokenStream a).tokens.map Token.eraseLine = (tokenStream b).tokens.map Token.eraseLine := by
  rw [SameTokens, tokenize, tokenize, TokenStream.toList, TokenStream.toList, List.map_append,
    List.map_append] at h
  have htokens := List.append_inj_left' h rfl
  have herased := congrArg (List.map fun (kind, text) => Token.mk kind text 0) htokens
  rw [List.map_map, List.map_map] at herased
  exact herased

/-- Texts with the same tokens are read alike. -/
theorem SameTokens.surface_parse {a b : String} (h : SameTokens a b) (depth : Depth) :
    Surface.Parser.ReadAlike
      (fun ss ss' => Surface.eraseLinesStatements ss = Surface.eraseLinesStatements ss')
      (Surface.parse depth a) (Surface.parse depth b) := by
  have ha := Surface.Parser.statements_alike (tokenStream a).endLine depth (tokenStream a).tokens
  have hb := Surface.Parser.statements_alike (tokenStream b).endLine depth (tokenStream b).tokens
  rw [← h.map_eraseLine] at hb
  exact ha.of_common hb

end EtherLang
