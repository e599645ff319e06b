import EtherLang.Proofs.Surface.Completeness

/-!
# Readings

Every function of the parser takes tokens from the head of a list and says which are left. Seen as
such readings, the functions are put together from a few parts: they look at the next token, skip
it, reject it, go down a level, or read one thing after another.

A reading is confined if it depends on nothing behind the token it stops at. What it has read from
some tokens, or the failure it ended in, it gives for all lists with the same tokens up to there,
and also where more levels are allowed, unless it was the levels that it failed for.
-/

namespace EtherLang

/-- One depth allows no more levels than another one. -/
instance : LE Depth where
  le
    | _, .unbounded => True
    | .atMost levels, .atMost levels' => levels ≤ levels'
    | .unbounded, .atMost _ => False

namespace Depth

/-- A depth allows no more levels than itself. -/
theorem le_rfl {depth : Depth} : depth ≤ depth := by
  cases depth with
  | unbounded => trivial
  | atMost levels => exact Nat.le_refl levels

/-- Every depth allows no more levels than no bound does. -/
theorem le_unbounded (depth : Depth) : depth ≤ unbounded := by
  cases depth <;> trivial

/-- Where a level is left, one is left of more levels. -/
theorem down?_of_le {depth depth' deeper : Depth} (hle : depth ≤ depth')
    (h : depth.down? = some deeper) :
    ∃ deeper', depth'.down? = some deeper' ∧ deeper ≤ deeper' := by
  match depth, depth', hle with
  | _, .unbounded, _ => exact ⟨.unbounded, rfl, deeper.le_unbounded⟩
  | .atMost 0, _, _ => cases h
  | .atMost (levels + 1), .atMost (levels' + 1), hle =>
    cases h
    exact ⟨.atMost levels', rfl, Nat.le_of_succ_le_succ hle⟩

end Depth

/-- A failure at one depth is one at another depth: where more levels are allowed, unless it was the
levels that were missing. -/
def ParseFailure.Persists (failure : ParseFailure) (depth depth' : Depth) : Prop :=
  depth ≤ depth' ∧ ((∃ line, failure = .rejected ⟨.tooDeep, line⟩) → depth = depth')

/-- Every failure persists at the depth it occurred at. -/
theorem ParseFailure.persists_self (failure : ParseFailure) (depth : Depth) :
    failure.Persists depth depth :=
  ⟨Depth.le_rfl, fun _ => rfl⟩

/-- A failure other than for the depth persists where there is no bound. -/
theorem ParseFailure.persists_unbounded {e : ParseError} (h : e.cause ≠ .tooDeep) (depth : Depth) :
    (ParseFailure.rejected e).Persists depth .unbounded := by
  refine ⟨depth.le_unbounded, ?_⟩
  rintro ⟨line, heq⟩
  cases heq
  exact absurd rfl h

/-- A failure that persists does so one level down. -/
theorem ParseFailure.Persists.down {failure : ParseFailure} {depth depth' deeper : Depth}
    (h : failure.Persists depth depth') (hdown : depth.down? = some deeper) :
    ∃ deeper', depth'.down? = some deeper' ∧ failure.Persists deeper deeper' := by
  obtain ⟨deeper', hdown', hle⟩ := Depth.down?_of_le h.1 hdown
  refine ⟨deeper', hdown', hle, fun hdeep => ?_⟩
  rw [← h.2 hdeep, hdown] at hdown'
  exact Option.some.inj hdown'

namespace Surface.Parser

open Grammar

/-- What was read and the tokens left, without the proof that they are fewer. -/
def Parsed.pair {α : Type} {tokens : List Token} (p : Parsed α tokens) : α × List Token :=
  (p.value, p.rest)

/-- What was read and the tokens left, without the proof that they are no more. -/
def Remaining.pair {α : Type} {tokens : List Token} (p : Remaining α tokens) : α × List Token :=
  (p.value, p.rest)

/-- A reading: at a depth and before an end of the input on some line, it makes something of the
head of the tokens and leaves the rest, or it fails. -/
abbrev Reading (α : Type) : Type :=
  Depth → Nat → List Token → Except ParseFailure (α × List Token)

namespace Reading

section Combinations

variable {α β : Type}

/-- Reads nothing. -/
def done (a : α) : Reading α :=
  fun _ _ tokens => .ok (a, tokens)

/-- Rejects the next token. -/
def failNext (cause : Token → ParseError.Cause) : Reading α :=
  fun _ endLine tokens => reject (cause (peek endLine tokens)) (peek endLine tokens).line

/-- Goes on by the next token, which stays, or by its absence. -/
def look (atEnd : Reading α) (next : Token → Reading α) : Reading α :=
  fun depth endLine tokens =>
    match tokens with
    | [] => atEnd depth endLine []
    | t :: rest => next t depth endLine (t :: rest)

/-- Goes on by the next token, which stays and may be the end of the input. -/
def here (next : Token → Reading α) : Reading α :=
  fun depth endLine tokens => next (peek endLine tokens) depth endLine tokens

/-- Goes on behind the next token. -/
def skip (behind : Reading α) : Reading α :=
  fun depth endLine tokens => behind depth endLine tokens.tail

/-- Goes on one level further down. -/
def deeper (inner : Reading α) : Reading α :=
  fun depth endLine tokens =>
    match depth.down? with
    | none => reject .tooDeep (peek endLine tokens).line
    | some depth => inner depth endLine tokens

/-- Reads one thing and then another. -/
def andThen (first : Reading α) (next : α → Reading β) : Reading β :=
  fun depth endLine tokens =>
    first depth endLine tokens >>= fun p => next p.1 depth endLine p.2

/-- Reading nothing first changes nothing. -/
theorem done_andThen (a : α) (next : α → Reading β) : (done a).andThen next = next a :=
  rfl

/-- Reading nothing last changes nothing. -/
theorem andThen_done (first : Reading α) : first.andThen done = first := by
  funext depth endLine tokens
  rw [andThen]
  cases first depth endLine tokens <;> rfl

/-- Of three readings in a row the last two may be taken together. -/
theorem andThen_assoc {γ : Type} (first : Reading α) (second : α → Reading β)
    (third : β → Reading γ) :
    (first.andThen second).andThen third = first.andThen fun a => (second a).andThen third := by
  funext depth endLine tokens
  simp only [andThen]
  cases first depth endLine tokens <;> rfl

/-- A token is skipped before all that follows. -/
theorem skip_andThen (behind : Reading α) (next : α → Reading β) :
    behind.skip.andThen next = (behind.andThen next).skip :=
  rfl

end Combinations

section Functions

/-- A token of the kind that is due. -/
def token (kind : TokenKind) (due : Expectation) : Reading Token :=
  fun _ endLine tokens => (expect endLine kind due tokens).map Parsed.pair

/-- A name. -/
def name (due : Expectation) : Reading Ident :=
  fun _ endLine tokens => (expectIdent endLine due tokens).map Parsed.pair

/-- The end of a statement. -/
def terminator (closed : Bool) : Reading Unit :=
  fun _ endLine tokens => (Parser.terminator endLine closed tokens).map Remaining.pair

/-- The parameters behind a first one. -/
def moreParams : Reading (List Ident) :=
  fun _ endLine tokens => (Parser.moreParams endLine tokens).map Parsed.pair

/-- The parameters of a function. -/
def params : Reading (List Ident) :=
  fun _ endLine tokens => (Parser.params endLine tokens).map Parsed.pair

/-- The next token as a numeral. -/
def numeral (t : Token) : Reading Expr :=
  fun _ _ tokens => (literal t).map fun e => (e, tokens.tail)

/-- An expression at a strength. -/
def expr (strength : Nat) : Reading Expr :=
  fun depth endLine tokens => (Parser.expr endLine depth strength tokens).map Parsed.pair

/-- The continuations of an expression at a strength. -/
def continuations (strength : Nat) (left : Expr) : Reading Expr :=
  fun depth endLine tokens =>
    (Parser.continuations endLine depth strength left tokens).map Remaining.pair

/-- One continuation of an expression. -/
def continuation (left : Expr) (c : Continuation) (line : Nat) : Reading Expr :=
  fun depth endLine tokens =>
    (Parser.continuation endLine depth left c line tokens).map Parsed.pair

/-- An operand. -/
def operand : Reading Expr :=
  fun depth endLine tokens => (Parser.operand endLine depth tokens).map Parsed.pair

/-- The `else` part of an `if`. -/
def alternative : Reading (Option Block) :=
  fun depth endLine tokens => (Parser.alternative endLine depth tokens).map Remaining.pair

/-- Expressions up to a closing token. -/
def exprList (close : TokenKind) : Reading (List Expr) :=
  fun depth endLine tokens => (Parser.exprList endLine depth close tokens).map Parsed.pair

/-- The expressions behind a first one, up to a closing token. -/
def moreExprs (close : TokenKind) : Reading (List Expr) :=
  fun depth endLine tokens => (Parser.moreExprs endLine depth close tokens).map Parsed.pair

/-- A block. -/
def block (due : Expectation) : Reading Block :=
  fun depth endLine tokens => (Parser.block endLine depth due tokens).map Parsed.pair

/-- The statements of a block. -/
def blockStatements : Reading (List Stmt) :=
  fun depth endLine tokens => (Parser.blockStatements endLine depth tokens).map Parsed.pair

/-- A statement with its end. -/
def stmt : Reading Stmt :=
  fun depth endLine tokens => (Parser.stmt endLine depth tokens).map Parsed.pair

/-- What follows the word `var` on a line. -/
def varBody (line : Nat) : Reading Stmt :=
  (name .varName).andThen fun target => (token .assign .varAssign).andThen fun _ =>
    (expr Binding.lowest).andThen fun value => done (.var target value line)

/-- What follows the word `return` on a line. -/
def retBody (line : Nat) : Reading Stmt :=
  (expr Binding.lowest).andThen fun value => done (.ret value line)

/-- An expression that stands as a statement on a line. -/
def exprBody (line : Nat) : Reading Stmt :=
  (expr Binding.lowest).andThen fun value => done (.expr value line)

/-- A statement without its end. -/
def stmtBody : Reading Stmt :=
  here fun t =>
    match t.kind with
    | .kwVar => skip (varBody t.line)
    | .kwReturn => skip (retBody t.line)
    | _ => exprBody t.line

/-- The end of a statement whose body has been read. -/
def terminated (s : Stmt) : Reading Stmt :=
  (terminator s.isClosed).andThen fun _ => done s

/-- All statements up to the end of the input. -/
def statements : Reading (List Stmt) :=
  fun depth endLine tokens => (Parser.statements endLine depth tokens).map fun ss => (ss, [])

end Functions

section Equations

variable {ε α α' β β' : Type}

/-- A sequence of two computations is one of their views. -/
theorem map_bind {x : Except ε α} {f : α → Except ε β} {view : α → α'} {view' : β → β'}
    {g : α' → Except ε β'} (h : ∀ a, (f a).map view' = g (view a)) :
    (x >>= f).map view' = x.map view >>= g := by
  cases x with
  | error e => rfl
  | ok a => exact h a

/-- A token that is due is the next one, or this one is rejected. -/
theorem token_eq (kind : TokenKind) (due : Expectation) :
    token kind due = look (failNext (.expected due)) fun t =>
      if t.kind = kind then skip (done t) else failNext (.expected due) := by
  funext depth endLine tokens
  cases tokens with
  | nil => rfl
  | cons t us =>
    rw [token, expect, look]
    split
    · rfl
    · rfl

/-- A name is a token that is due. -/
theorem name_eq (due : Expectation) :
    name due = (token .ident due).andThen fun t => done ⟨t.text, t.line⟩ := by
  funext depth endLine tokens
  exact map_bind fun _ => rfl

/-- The end of a statement is a semicolon, or nothing where none is needed. -/
theorem terminator_eq (closed : Bool) :
    terminator closed = look (done ()) fun t =>
      if t.kind = .semicolon then skip (done ())
      else if closed || t.kind = .rightBrace then done ()
      else failNext (.expected .terminator) := by
  funext depth endLine tokens
  cases tokens with
  | nil => rfl
  | cons t us =>
    rw [terminator, Parser.terminator, look]
    split
    · rfl
    · split
      · rfl
      · rfl

/-- The parameters behind a first one follow commas, up to a bar. -/
theorem moreParams_eq :
    moreParams = look (failNext (.expected .parametersClose)) fun t =>
      match t.kind with
      | .comma => skip <| (name .parameter).andThen fun param =>
        moreParams.andThen fun params => done (param :: params)
      | .bar => skip (done [])
      | _ => failNext (.expected .parametersClose) := by
  funext depth endLine tokens
  cases tokens with
  | nil =>
    rw [moreParams, Parser.moreParams]
    rfl
  | cons t us =>
    obtain ⟨kind, text, line⟩ := t
    rw [moreParams, Parser.moreParams, look]
    cases kind with
    | comma => exact map_bind fun _ => map_bind fun _ => rfl
    | _ => rfl

/-- The parameters of a function are none, or a first one and those behind it. -/
theorem params_eq :
    params = look (failNext (.expected .parameter)) fun t =>
      if t.kind = .bar then skip (done [])
      else (name .parameter).andThen fun param =>
        moreParams.andThen fun params => done (param :: params) := by
  funext depth endLine tokens
  cases tokens with
  | nil => rfl
  | cons t us =>
    rw [params, Parser.params, look]
    split
    · rfl
    · exact map_bind fun _ => map_bind fun _ => rfl

/-- An expression is an operand with its continuations, one level down. -/
theorem expr_eq (strength : Nat) :
    expr strength = deeper (operand.andThen (continuations strength)) := by
  funext depth endLine tokens
  rw [expr, Parser.expr, deeper]
  cases depth.down? with
  | none => rfl
  | some depth =>
    rw [← andThen_done (operand.andThen _), andThen_assoc]
    exact map_bind fun _ => map_bind fun _ => rfl

/-- The continuations of an expression are taken in while they are strong enough. -/
theorem continuations_eq (strength : Nat) (left : Expr) :
    continuations strength left = look (done left) fun t =>
      match t.kind.continuation? with
      | none => done left
      | some c =>
        if strength < c.binding then
          skip ((continuation left c t.line).andThen (continuations strength))
        else done left := by
  funext depth endLine tokens
  cases tokens with
  | nil =>
    rw [continuations, Parser.continuations]
    rfl
  | cons t us =>
    rw [continuations, Parser.continuations, look]
    cases t.kind.continuation? with
    | none => rfl
    | some c =>
      dsimp only
      split
      · rw [← andThen_done (Reading.andThen _ _), andThen_assoc]
        exact map_bind fun _ => map_bind fun _ => rfl
      · rfl

/-- A continuation is a call, an index, an arrow or an operator with its right operand. -/
theorem continuation_eq (left : Expr) (c : Continuation) (line : Nat) :
    continuation left c line =
      match c with
      | .call => (exprList .rightParen).andThen fun args => done (.call left args line)
      | .index => (expr Binding.lowest).andThen fun position =>
        (token .rightBracket .indexClose).andThen fun _ => done (.index left position line)
      | .arrow => (expr Binding.arrow).andThen fun target => done (.arrow left target line)
      | .binary op => (expr op.binding).andThen fun right => done (.binary op left right line) := by
  funext depth endLine tokens
  rw [continuation, Parser.continuation.eq_def]
  cases c with
  | call | arrow | binary op => exact map_bind fun _ => rfl
  | index => exact map_bind fun _ => map_bind fun _ => rfl

/-- An operand is what its first token makes it. -/
theorem operand_eq :
    operand = look (failNext .unexpected) fun t =>
      match t.kind with
      | .integer => numeral t
      | .kwTrue => skip (done (.boolean true t.line))
      | .kwFalse => skip (done (.boolean false t.line))
      | .ident => skip (done (.ident t.text t.line))
      | .leftParen => skip <| (expr Binding.lowest).andThen fun inner =>
        (token .rightParen .groupClose).andThen fun _ => done inner
      | .minus => skip <| (expr Binding.unary).andThen fun inner =>
        done (.unary .negate inner t.line)
      | .bang => skip <| (expr Binding.unary).andThen fun inner => done (.unary .not inner t.line)
      | .bar => skip <| params.andThen fun names => (block .functionBody).andThen fun body =>
        done (.function names body t.line)
      | .leftBracket => skip <| (exprList .rightBracket).andThen fun elements =>
        done (.array elements t.line)
      | .kwIf => skip <| (expr Binding.lowest).andThen fun condition =>
        (block .ifBody).andThen fun consequence => alternative.andThen fun part =>
        done (.cond condition consequence part t.line)
      | .illegal => failNext fun t => .illegalCharacter t.text
      | _ => failNext .unexpected := by
  funext depth endLine tokens
  cases tokens with
  | nil =>
    rw [operand, Parser.operand]
    rfl
  | cons t us =>
    obtain ⟨kind, text, line⟩ := t
    rw [operand, Parser.operand, look]
    cases kind with
    | integer =>
      dsimp only
      rw [numeral]
      cases literal ⟨.integer, text, line⟩ <;> rfl
    | leftParen | bar => exact map_bind fun _ => map_bind fun _ => rfl
    | minus | bang | leftBracket => exact map_bind fun _ => rfl
    | kwIf => exact map_bind fun _ => map_bind fun _ => map_bind fun _ => rfl
    | _ => rfl

/-- The `else` part of an `if` is a block behind `else`. -/
theorem alternative_eq :
    alternative = look (done none) fun t =>
      if t.kind = .kwElse then skip ((block .elseBody).andThen fun body => done (some body))
      else done none := by
  funext depth endLine tokens
  cases tokens with
  | nil =>
    rw [alternative, Parser.alternative]
    rfl
  | cons t us =>
    rw [alternative, Parser.alternative, look]
    split
    · exact map_bind fun _ => rfl
    · rfl

/-- Expressions up to a closing token are none, or a first one and those behind it. -/
theorem exprList_eq (close : TokenKind) :
    exprList close = look (failNext .unexpected) fun t =>
      if t.kind = close then skip (done [])
      else (expr Binding.lowest).andThen fun first =>
        (moreExprs close).andThen fun others => done (first :: others) := by
  funext depth endLine tokens
  cases tokens with
  | nil =>
    rw [exprList, Parser.exprList]
    rfl
  | cons t us =>
    rw [exprList, Parser.exprList, look]
    split
    · rfl
    · exact map_bind fun _ => map_bind fun _ => rfl

/-- The expressions behind a first one follow commas, up to the closing token. -/
theorem moreExprs_eq (close : TokenKind) :
    moreExprs close = look (failNext (.expected (.listClose close))) fun t =>
      if t.kind = .comma then
        skip <| (expr Binding.lowest).andThen fun next =>
          (moreExprs close).andThen fun others => done (next :: others)
      else (token close (.listClose close)).andThen fun _ => done [] := by
  funext depth endLine tokens
  cases tokens with
  | nil =>
    rw [moreExprs, Parser.moreExprs]
    rfl
  | cons t us =>
    rw [moreExprs, Parser.moreExprs, look]
    split
    · exact map_bind fun _ => map_bind fun _ => rfl
    · exact map_bind fun _ => rfl

/-- A block is an opening brace and the statements behind it. -/
theorem block_eq (due : Expectation) :
    block due = (token .leftBrace due).andThen fun brace =>
      blockStatements.andThen fun statements => done (.mk statements brace.line) := by
  funext depth endLine tokens
  rw [block, Parser.block]
  exact map_bind fun _ => map_bind fun _ => rfl

/-- The statements of a block are read up to a closing brace. -/
theorem blockStatements_eq :
    blockStatements = look (failNext fun _ => .unterminatedBlock) fun t =>
      if t.kind = .rightBrace then skip (done [])
      else stmt.andThen fun first =>
        blockStatements.andThen fun others => done (first :: others) := by
  funext depth endLine tokens
  cases tokens with
  | nil =>
    rw [blockStatements, Parser.blockStatements]
    rfl
  | cons t us =>
    rw [blockStatements, Parser.blockStatements, look]
    split
    · rfl
    · exact map_bind fun _ => map_bind fun _ => rfl

/-- A statement is its body and its end. -/
theorem stmt_eq : stmt = stmtBody.andThen terminated := by
  funext depth endLine tokens
  have hexpr : (exprStmt endLine depth tokens).map Parsed.pair =
      (exprBody (peek endLine tokens).line).andThen terminated depth endLine tokens := by
    rw [exprStmt, exprBody, andThen_assoc]
    exact map_bind fun _ => map_bind fun _ => rfl
  cases tokens with
  | nil =>
    rw [stmt, Parser.stmt, hexpr]
    rfl
  | cons t us =>
    obtain ⟨kind, text, line⟩ := t
    rw [stmt, Parser.stmt]
    cases kind with
    | kwVar =>
      change _ = (varBody line).skip.andThen terminated depth endLine (_ :: us)
      simp only [varBody, skip_andThen, andThen_assoc, done_andThen]
      exact map_bind fun _ => map_bind fun _ => map_bind fun _ => map_bind fun _ => rfl
    | kwReturn =>
      change _ = (retBody line).skip.andThen terminated depth endLine (_ :: us)
      simp only [retBody, skip_andThen, andThen_assoc, done_andThen]
      exact map_bind fun _ => map_bind fun _ => rfl
    | _ =>
      rw [hexpr]
      rfl

/-- All statements are a first one and those behind it. -/
theorem statements_eq :
    statements = look (done []) fun _ => stmt.andThen fun first =>
      statements.andThen fun others => done (first :: others) := by
  funext depth endLine tokens
  cases tokens with
  | nil =>
    rw [statements, Parser.statements]
    rfl
  | cons t us =>
    rw [statements, Parser.statements]
    exact map_bind fun _ => map_bind fun _ => rfl

/-- All statements are read as they are, and no tokens are left. -/
theorem statements_eq_ok_iff {depth : Depth} {endLine : Nat} {tokens : List Token}
    {ss : List Stmt} :
    statements depth endLine tokens = .ok (ss, []) ↔
      Parser.statements endLine depth tokens = .ok ss := by
  rw [statements]
  cases Parser.statements endLine depth tokens <;> simp [Except.map]

/-- All statements fail to be read as they do. -/
theorem statements_eq_error_iff {depth : Depth} {endLine : Nat} {tokens : List Token}
    {failure : ParseFailure} :
    statements depth endLine tokens = .error failure ↔
      Parser.statements endLine depth tokens = .error failure := by
  rw [statements]
  cases Parser.statements endLine depth tokens <;> simp [Except.map]

end Equations

end Reading

section SameNext

variable {endLine endLine' : Nat} {t : Token} {ts us us' : List Token}

/-- Two lists of tokens begin with the same token, be it the end of the input. -/
def SameNext (endLine endLine' : Nat) (us us' : List Token) : Prop :=
  us.head? = us'.head? ∧ peek endLine us = peek endLine' us'

/-- Every list of tokens begins as it does. -/
theorem SameNext.refl (endLine : Nat) (us : List Token) : SameNext endLine endLine us us :=
  ⟨rfl, rfl⟩

/-- Lists of tokens with the same first token begin with the same token. -/
theorem SameNext.cons (t : Token) (us us' : List Token) :
    SameNext endLine endLine' (t :: us) (t :: us') :=
  ⟨rfl, rfl⟩

/-- Before lists that begin with the same token the same tokens may be put. -/
theorem SameNext.append (h : SameNext endLine endLine' us us') (ts : List Token) :
    SameNext endLine endLine' (ts ++ us) (ts ++ us') := by
  cases ts with
  | nil => exact h
  | cons t ts => exact .cons t _ _

/-- Only the empty list begins with the end of the input. -/
theorem SameNext.eq_nil (h : SameNext endLine endLine' [] us') : us' = [] := by
  cases us' with
  | nil => rfl
  | cons t us' => cases h.1

/-- What begins with the same token as a list that is not empty has a first token. -/
theorem SameNext.exists_cons (h : SameNext endLine endLine' (t :: us) us') :
    ∃ vs, us' = t :: vs := by
  cases us' with
  | nil => cases h.1
  | cons u us' =>
    cases h.1
    exact ⟨us', rfl⟩

end SameNext

/-- A reading of some tokens depends on no token behind the one that it stops at. If it fails, the
tokens before that one and those from it on are in a relation to the rejection. -/
inductive Confined {α : Type} (reading : Reading α)
    (fault : ParseError → List Token → List Token → Prop) (depth : Depth) (endLine : Nat)
    (tokens : List Token) : Prop
  | ok (a : α) (ts us : List Token) : tokens = ts ++ us → Throughout Convertible ts →
    (∀ {depth' endLine' us'}, depth ≤ depth' → SameNext endLine endLine' us us' →
      reading depth' endLine' (ts ++ us') = .ok (a, us')) →
    Confined reading fault depth endLine tokens
  | error (failure : ParseFailure) (ts us : List Token) : tokens = ts ++ us →
    Throughout Convertible ts → (∀ e, failure = .rejected e → fault e ts us) →
    (∀ {depth' endLine' us'}, failure.Persists depth depth' → SameNext endLine endLine' us us' →
      reading depth' endLine' (ts ++ us') = .error failure) →
    Confined reading fault depth endLine tokens

namespace Confined

variable {α β : Type} {reading : Reading α} {depth : Depth} {endLine : Nat} {tokens : List Token}
  {fault : ParseError → List Token → List Token → Prop}

/-- What is read from some tokens is read from all lists with these tokens and the same one
behind them. -/
theorem of_eq_ok {a : α} {us : List Token} (h : Confined reading fault depth endLine tokens)
    (hread : reading depth endLine tokens = .ok (a, us)) :
    ∃ ts, tokens = ts ++ us ∧ Throughout Convertible ts ∧
      ∀ {depth' endLine' us'}, depth ≤ depth' → SameNext endLine endLine' us us' →
        reading depth' endLine' (ts ++ us') = .ok (a, us') := by
  cases h with
  | ok a' ts us' htokens hts hall =>
    have hself := hall Depth.le_rfl (.refl endLine us')
    rw [← htokens, hread] at hself
    cases hself
    exact ⟨ts, htokens, hts, hall⟩
  | error failure ts us' htokens _ _ hall =>
    have hself := hall (failure.persists_self depth) (.refl endLine us')
    rw [← htokens, hread] at hself
    cases hself

/-- A failure to read some tokens is one for all lists with the same tokens up to the rejected
one. -/
theorem of_eq_error {failure : ParseFailure} (h : Confined reading fault depth endLine tokens)
    (hread : reading depth endLine tokens = .error failure) :
    ∃ ts us, tokens = ts ++ us ∧ Throughout Convertible ts ∧
      (∀ e, failure = .rejected e → fault e ts us) ∧
      ∀ {depth' endLine' us'}, failure.Persists depth depth' → SameNext endLine endLine' us us' →
        reading depth' endLine' (ts ++ us') = .error failure := by
  cases h with
  | ok a ts us htokens _ hall =>
    have hself := hall Depth.le_rfl (.refl endLine us)
    rw [← htokens, hread] at hself
    cases hself
  | error failure' ts us htokens hts hfault hall =>
    have hself := hall (failure'.persists_self depth) (.refl endLine us)
    rw [← htokens, hread] at hself
    cases hself
    exact ⟨ts, us, htokens, hts, hfault, hall⟩

/-- What is known about the rejections may be weakened. -/
theorem imp {weaker : ParseError → List Token → List Token → Prop}
    (h : Confined reading fault depth endLine tokens)
    (himp : ∀ {e ts us}, tokens = ts ++ us → fault e ts us → weaker e ts us) :
    Confined reading weaker depth endLine tokens := by
  cases h with
  | ok a ts us htokens hts hall => exact .ok a ts us htokens hts hall
  | error failure ts us htokens hts hfault hall =>
    exact .error failure ts us htokens hts (fun e he => himp htokens (hfault e he)) hall

/-- A reading may be replaced by one that does the same before the same next token. -/
theorem congr {reading' : Reading α} (h : Confined reading fault depth endLine tokens)
    (heq : ∀ {depth' endLine' tokens'}, SameNext endLine endLine' tokens tokens' →
      reading' depth' endLine' tokens' = reading depth' endLine' tokens') :
    Confined reading' fault depth endLine tokens := by
  cases h with
  | ok a ts us htokens hts hall =>
    subst htokens
    refine .ok a ts us rfl hts fun hle hnext => ?_
    rw [heq (hnext.append ts)]
    exact hall hle hnext
  | error failure ts us htokens hts hfault hall =>
    subst htokens
    refine .error failure ts us rfl hts hfault fun hpersists hnext => ?_
    rw [heq (hnext.append ts)]
    exact hall hpersists hnext

/-- Reading nothing depends on nothing. -/
theorem done (a : α) : Confined (.done a) fault depth endLine tokens :=
  .ok a [] tokens rfl throughout_nil fun _ _ => rfl

/-- Rejecting the next token depends on nothing behind it. -/
theorem failNext {cause : Token → ParseError.Cause}
    (h : fault ⟨cause (peek endLine tokens), (peek endLine tokens).line⟩ [] tokens) :
    Confined (.failNext cause : Reading α) fault depth endLine tokens := by
  refine .error (.rejected ⟨cause (peek endLine tokens), (peek endLine tokens).line⟩) [] tokens
    rfl throughout_nil (fun e he => ?_) fun _ hnext => ?_
  · cases he
    exact h
  · rw [List.nil_append, Reading.failNext, ← hnext.2]
    rfl

/-- Going on by the absence of tokens. -/
theorem look_nil {atEnd : Reading α} {next : Token → Reading α}
    (h : Confined atEnd fault depth endLine []) :
    Confined (.look atEnd next) fault depth endLine [] := by
  refine h.congr fun hnext => ?_
  rw [hnext.eq_nil]
  rfl

/-- Going on by the next token. -/
theorem look_cons {atEnd : Reading α} {next : Token → Reading α} {t : Token}
    (h : Confined (next t) fault depth endLine (t :: tokens)) :
    Confined (.look atEnd next) fault depth endLine (t :: tokens) := by
  refine h.congr fun hnext => ?_
  obtain ⟨us, rfl⟩ := hnext.exists_cons
  rfl

/-- Going on by the next token, be it the end of the input. -/
theorem here {next : Token → Reading α}
    (h : Confined (next (peek endLine tokens)) fault depth endLine tokens) :
    Confined (.here next) fault depth endLine tokens := by
  refine h.congr fun hnext => ?_
  rw [Reading.here, hnext.2]

/-- Going on behind a token. -/
theorem skip {t : Token} (ht : Convertible t)
    (h : Confined reading (fun e ts us => fault e (t :: ts) us) depth endLine tokens) :
    Confined reading.skip fault depth endLine (t :: tokens) := by
  cases h with
  | ok a ts us htokens hts hall =>
    exact .ok a (t :: ts) us (congrArg (t :: ·) htokens) (throughout_cons.mpr ⟨ht, hts⟩) hall
  | error failure ts us htokens hts hfault hall =>
    exact .error failure (t :: ts) us (congrArg (t :: ·) htokens)
      (throughout_cons.mpr ⟨ht, hts⟩) hfault hall

/-- Going on one level further down. -/
theorem deeper (hnone : fault ⟨.tooDeep, (peek endLine tokens).line⟩ [] tokens)
    (hsome : ∀ deeper, Confined reading fault deeper endLine tokens) :
    Confined reading.deeper fault depth endLine tokens := by
  cases hdown : depth.down? with
  | none =>
    refine .error (.rejected ⟨.tooDeep, (peek endLine tokens).line⟩) [] tokens rfl throughout_nil
      (fun e he => ?_) fun hpersists hnext => ?_
    · cases he
      exact hnone
    · rw [List.nil_append, Reading.deeper, ← hpersists.2 ⟨_, rfl⟩, hdown, ← hnext.2]
      rfl
  | some deeper =>
    cases hsome deeper with
    | ok a ts us htokens hts hall =>
      refine .ok a ts us htokens hts fun hle hnext => ?_
      obtain ⟨deeper', hdown', hle'⟩ := Depth.down?_of_le hle hdown
      rw [Reading.deeper, hdown']
      exact hall hle' hnext
    | error failure ts us htokens hts hfault hall =>
      refine .error failure ts us htokens hts hfault fun hpersists hnext => ?_
      obtain ⟨deeper', hdown', hpersists'⟩ := hpersists.down hdown
      rw [Reading.deeper, hdown']
      exact hall hpersists' hnext

/-- Reading one thing and then another. -/
theorem andThen {next : α → Reading β} (h : Confined reading fault depth endLine tokens)
    (hnext : ∀ {a ts us}, tokens = ts ++ us → reading depth endLine (ts ++ us) = .ok (a, us) →
      Confined (next a) (fun e ts' us' => fault e (ts ++ ts') us') depth endLine us) :
    Confined (reading.andThen next) fault depth endLine tokens := by
  cases h with
  | ok a ts us htokens hts hall =>
    have hbind : ∀ {depth' endLine' us'}, depth ≤ depth' → SameNext endLine endLine' us us' →
        reading.andThen next depth' endLine' (ts ++ us') = next a depth' endLine' us' := by
      intro depth' endLine' us' hle hsame
      rw [Reading.andThen, hall hle hsame]
      rfl
    cases hnext htokens (hall Depth.le_rfl (.refl endLine us)) with
    | ok b ts' us' hus hts' hall' =>
      subst hus
      refine .ok b (ts ++ ts') us' (by rw [htokens, List.append_assoc])
        (throughout_append.mpr ⟨hts, hts'⟩) fun hle hsame => ?_
      rw [List.append_assoc, hbind hle (hsame.append ts')]
      exact hall' hle hsame
    | error failure ts' us' hus hts' hfault hall' =>
      subst hus
      refine .error failure (ts ++ ts') us' (by rw [htokens, List.append_assoc])
        (throughout_append.mpr ⟨hts, hts'⟩) hfault fun hpersists hsame => ?_
      rw [List.append_assoc, hbind hpersists.1 (hsame.append ts')]
      exact hall' hpersists hsame
  | error failure ts us htokens hts hfault hall =>
    refine .error failure ts us htokens hts hfault fun hpersists hsame => ?_
    rw [Reading.andThen, hall hpersists hsame]
    rfl

end Confined

end Surface.Parser

end EtherLang
