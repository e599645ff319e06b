import Mathlib.Logic.Function.Iterate
import EtherLang.Proofs.Surface.Viability

/-!
# The recursion of the parser

The functions of the parser call each other, and all that they do with the tokens themselves is to
look at the next one and to step over it. This makes an equation for each of them. In the equations
it is a failure of its own to step over the end of the input, whatever failure that may be, and the
functions of the parser satisfy them all the same: none of them ever does so.

The equations have no other solution. Before a function calls itself in the end, a token has been
stepped over, so what the functions make of some tokens is determined by what they make of fewer.
To unroll the equations often enough is thus a way to compute what the parser makes of a text.
-/

namespace EtherLang.Surface

namespace Parser

namespace Reading

variable {α : Type}

/-- Goes on behind the next token. At the end of the input there is nothing to step over. -/
def stepOver (past : ParseFailure) (behind : Reading α) : Reading α :=
  fun depth endLine tokens =>
    match tokens with
    | [] => .error past
    | _ :: rest => behind depth endLine rest

/-- Reads nothing and goes on with a result. -/
def ofResult (result : Except ParseFailure α) : Reading α :=
  fun _ _ tokens => result.map fun a => (a, tokens)

end Reading

open Reading (done failNext look here deeper stepOver ofResult)

/-- Readings for all that the functions of the parser read. -/
@[ext]
structure Readings where
  token (kind : TokenKind) (due : Expectation) : Reading Token
  name (due : Expectation) : Reading Ident
  terminator (closed : Bool) : Reading Unit
  moreParams : Reading (List Ident)
  params : Reading (List Ident)
  expr (strength : Nat) : Reading Expr
  continuations (strength : Nat) (left : Expr) : Reading Expr
  continuation (left : Expr) (c : Continuation) (line : Nat) : Reading Expr
  operand : Reading Expr
  alternative : Reading (Option Block)
  exprList (close : TokenKind) : Reading (List Expr)
  moreExprs (close : TokenKind) : Reading (List Expr)
  block (due : Expectation) : Reading Block
  blockStatements : Reading (List Stmt)
  stmt : Reading Stmt
  statements : Reading (List Stmt)

namespace Readings

/-- The functions of the parser. -/
def ofParser : Readings where
  token := Reading.token
  name := Reading.name
  terminator := Reading.terminator
  moreParams := Reading.moreParams
  params := Reading.params
  expr := Reading.expr
  continuations := Reading.continuations
  continuation := Reading.continuation
  operand := Reading.operand
  alternative := Reading.alternative
  exprList := Reading.exprList
  moreExprs := Reading.moreExprs
  block := Reading.block
  blockStatements := Reading.blockStatements
  stmt := Reading.stmt
  statements := Reading.statements

/-- The right sides of the equations: what the functions do themselves, where for the functions that
they call the given readings are used. -/
def unroll (past : ParseFailure) (r : Readings) : Readings where
  token kind due := look (failNext (.expected due)) fun t =>
    if t.kind = kind then stepOver past (done t) else failNext (.expected due)
  name due := (r.token .ident due).andThen fun t => done ⟨t.text, t.line⟩
  terminator closed := look (done ()) fun t =>
    if t.kind = .semicolon then stepOver past (done ())
    else if closed || t.kind = .rightBrace then done ()
    else failNext (.expected .terminator)
  moreParams := look (failNext (.expected .parametersClose)) fun t =>
    match t.kind with
    | .comma => stepOver past <| (r.name .parameter).andThen fun param =>
      r.moreParams.andThen fun params => done (param :: params)
    | .bar => stepOver past (done [])
    | _ => failNext (.expected .parametersClose)
  params := look (failNext (.expected .parameter)) fun t =>
    if t.kind = .bar then stepOver past (done [])
    else (r.name .parameter).andThen fun param =>
      r.moreParams.andThen fun params => done (param :: params)
  expr strength := deeper (r.operand.andThen (r.continuations strength))
  continuations strength left := look (done left) fun t =>
    match t.kind.continuation? with
    | none => done left
    | some c =>
      if strength < c.binding then
        stepOver past ((r.continuation left c t.line).andThen (r.continuations strength))
      else done left
  continuation left c line :=
    match c with
    | .call => (r.exprList .rightParen).andThen fun args => done (.call left args line)
    | .index => (r.expr Binding.lowest).andThen fun position =>
      (r.token .rightBracket .indexClose).andThen fun _ => done (.index left position line)
    | .arrow => (r.expr Binding.arrow).andThen fun target => done (.arrow left target line)
    | .binary op => (r.expr op.binding).andThen fun right => done (.binary op left right line)
  operand := look (failNext .unexpected) fun t =>
    match t.kind with
    | .integer => (ofResult (literal t)).andThen fun value => stepOver past (done value)
    | .kwTrue => stepOver past (done (.boolean true t.line))
    | .kwFalse => stepOver past (done (.boolean false t.line))
    | .ident => stepOver past (done (.ident t.text t.line))
    | .leftParen => stepOver past <| (r.expr Binding.lowest).andThen fun inner =>
      (r.token .rightParen .groupClose).andThen fun _ => done inner
    | .minus => stepOver past <| (r.expr Binding.unary).andThen fun inner =>
      done (.unary .negate inner t.line)
    | .bang => stepOver past <| (r.expr Binding.unary).andThen fun inner =>
      done (.unary .not inner t.line)
    | .bar => stepOver past <| r.params.andThen fun names =>
      (r.block .functionBody).andThen fun body => done (.function names body t.line)
    | .leftBracket => stepOver past <| (r.exprList .rightBracket).andThen fun elements =>
      done (.array elements t.line)
    | .kwIf => stepOver past <| (r.expr Binding.lowest).andThen fun condition =>
      (r.block .ifBody).andThen fun consequence => r.alternative.andThen fun part =>
      done (.cond condition consequence part t.line)
    | .illegal => failNext fun t => .illegalCharacter t.text
    | _ => failNext .unexpected
  alternative := look (done none) fun t =>
    if t.kind = .kwElse then
      stepOver past ((r.block .elseBody).andThen fun body => done (some body))
    else done none
  exprList close := look (failNext .unexpected) fun t =>
    if t.kind = close then stepOver past (done [])
    else (r.expr Binding.lowest).andThen fun first =>
      (r.moreExprs close).andThen fun others => done (first :: others)
  moreExprs close := look (failNext (.expected (.listClose close))) fun t =>
    if t.kind = .comma then
      stepOver past <| (r.expr Binding.lowest).andThen fun next =>
        (r.moreExprs close).andThen fun others => done (next :: others)
    else (r.token close (.listClose close)).andThen fun _ => done []
  block due := (r.token .leftBrace due).andThen fun brace =>
    r.blockStatements.andThen fun statements => done (.mk statements brace.line)
  blockStatements := look (failNext fun _ => .unterminatedBlock) fun t =>
    if t.kind = .rightBrace then stepOver past (done [])
    else r.stmt.andThen fun first =>
      r.blockStatements.andThen fun others => done (first :: others)
  stmt :=
    (here fun t =>
      match t.kind with
      | .kwVar => stepOver past <| (r.name .varName).andThen fun target =>
        (r.token .assign .varAssign).andThen fun _ =>
        (r.expr Binding.lowest).andThen fun value => done (.var target value t.line)
      | .kwReturn => stepOver past <| (r.expr Binding.lowest).andThen fun value =>
        done (.ret value t.line)
      | _ => (r.expr Binding.lowest).andThen fun value => done (.expr value t.line)).andThen
    fun s => (r.terminator s.isClosed).andThen fun _ => done s
  statements := look (done []) fun _ => r.stmt.andThen fun first =>
    r.statements.andThen fun others => done (first :: others)

section Solution

variable {α : Type}

/-- Where the next token is looked at, it is there. -/
theorem look_congr {atEnd : Reading α} {next next' : Token → Reading α}
    (h : ∀ t depth endLine us, next t depth endLine (t :: us) = next' t depth endLine (t :: us)) :
    look atEnd next = look atEnd next' := by
  funext depth endLine tokens
  cases tokens with
  | nil => rfl
  | cons t us => exact h t depth endLine us

/-- The functions of the parser satisfy the equations: they never step over the end of the input. -/
theorem unroll_ofParser (past : ParseFailure) : ofParser.unroll past = ofParser := by
  apply Readings.ext
  case token =>
    funext kind due
    refine .trans (look_congr fun t depth endLine us => ?_) (Reading.token_eq kind due).symm
    split <;> rfl
  case name =>
    funext due
    exact (Reading.name_eq due).symm
  case terminator =>
    funext closed
    refine .trans (look_congr fun t depth endLine us => ?_) (Reading.terminator_eq closed).symm
    split <;> rfl
  case moreParams =>
    refine .trans (look_congr fun t depth endLine us => ?_) Reading.moreParams_eq.symm
    obtain ⟨kind, text, line⟩ := t
    cases kind <;> rfl
  case params =>
    refine .trans (look_congr fun t depth endLine us => ?_) Reading.params_eq.symm
    split <;> rfl
  case expr =>
    funext strength
    exact (Reading.expr_eq strength).symm
  case continuations =>
    funext strength left
    refine .trans (look_congr fun t depth endLine us => ?_)
      (Reading.continuations_eq strength left).symm
    cases t.kind.continuation? with
    | none => rfl
    | some c =>
      dsimp only
      split <;> rfl
  case continuation =>
    funext left c line
    exact (Reading.continuation_eq left c line).symm
  case operand =>
    refine .trans (look_congr fun t depth endLine us => ?_) Reading.operand_eq.symm
    obtain ⟨kind, text, line⟩ := t
    cases kind with
    | integer =>
      dsimp only
      rw [Reading.andThen, ofResult, Reading.numeral]
      cases literal ⟨.integer, text, line⟩ <;> rfl
    | _ => rfl
  case alternative =>
    refine .trans (look_congr fun t depth endLine us => ?_) Reading.alternative_eq.symm
    split <;> rfl
  case exprList =>
    funext close
    refine .trans (look_congr fun t depth endLine us => ?_) (Reading.exprList_eq close).symm
    split <;> rfl
  case moreExprs =>
    funext close
    refine .trans (look_congr fun t depth endLine us => ?_) (Reading.moreExprs_eq close).symm
    split <;> rfl
  case block =>
    funext due
    exact (Reading.block_eq due).symm
  case blockStatements =>
    refine .trans (look_congr fun t depth endLine us => ?_) Reading.blockStatements_eq.symm
    split <;> rfl
  case stmt =>
    rw [ofParser, Reading.stmt_eq]
    funext depth endLine tokens
    cases tokens with
    | nil => rfl
    | cons t us =>
      obtain ⟨kind, text, line⟩ := t
      cases kind <;> rfl
  case statements => exact Reading.statements_eq.symm

end Solution

end Readings

/-- Two readings do the same with these tokens. -/
def SameOn {α : Type} (first second : Reading α) (tokens : List Token) : Prop :=
  ∀ depth endLine, first depth endLine tokens = second depth endLine tokens

namespace SameOn

variable {α β : Type} {reading reading' : Reading α} {tokens us : List Token}

/-- Every reading does the same as itself. -/
theorem refl (reading : Reading α) (tokens : List Token) : SameOn reading reading tokens :=
  fun _ _ => rfl

/-- Readings that do the same with all tokens are the same. -/
theorem eq (h : ∀ tokens, SameOn reading reading' tokens) : reading = reading' := by
  funext depth endLine tokens
  exact h tokens depth endLine

/-- Going on by the next token. -/
theorem look {atEnd : Reading α} {next next' : Token → Reading α}
    (h : ∀ t us, tokens = t :: us → SameOn (next t) (next' t) (t :: us)) :
    SameOn (.look atEnd next) (.look atEnd next') tokens := by
  cases tokens with
  | nil => exact .refl _ _
  | cons t us => exact h t us rfl

/-- Going on by the next token, be it the end of the input. -/
theorem here {next next' : Token → Reading α} (h : ∀ t, SameOn (next t) (next' t) tokens) :
    SameOn (.here next) (.here next') tokens :=
  fun depth endLine => h (peek endLine tokens) depth endLine

/-- Going on behind the next token, where fewer tokens are left. -/
theorem stepOver {past : ParseFailure}
    (h : ∀ us, us.length < tokens.length → SameOn reading reading' us) :
    SameOn (reading.stepOver past) (reading'.stepOver past) tokens := by
  cases tokens with
  | nil => exact fun _ _ => rfl
  | cons t us => exact h us (Nat.lt_succ_self _)

/-- Going on one level further down. -/
theorem deeper (h : SameOn reading reading' tokens) :
    SameOn reading.deeper reading'.deeper tokens := by
  intro depth endLine
  rw [Reading.deeper, Reading.deeper]
  cases depth.down? with
  | none => rfl
  | some depth => exact h depth endLine

/-- Reading one thing and then another. -/
theorem andThen {next next' : α → Reading β} (h : SameOn reading reading' tokens)
    (hnext : ∀ {a rest depth endLine}, reading' depth endLine tokens = .ok (a, rest) →
      SameOn (next a) (next' a) rest) :
    SameOn (reading.andThen next) (reading'.andThen next') tokens := by
  intro depth endLine
  rw [Reading.andThen, Reading.andThen, h]
  cases hread : reading' depth endLine tokens with
  | error failure => rfl
  | ok p => exact hnext hread depth endLine

/-- Reading one thing of which something is made. -/
theorem map (h : SameOn reading reading' tokens) (f : α → β) :
    SameOn (reading.andThen fun a => .done (f a)) (reading'.andThen fun a => .done (f a)) tokens :=
  h.andThen fun _ => .refl _ _

end SameOn

namespace Readings

/-- The readings do the same with these tokens as the functions of the parser. -/
structure SameAsParser (r : Readings) (tokens : List Token) : Prop where
  moreParams : SameOn r.moreParams ofParser.moreParams tokens
  params : SameOn r.params ofParser.params tokens
  expr (strength : Nat) : SameOn (r.expr strength) (ofParser.expr strength) tokens
  continuations (strength : Nat) (left : Expr) :
    SameOn (r.continuations strength left) (ofParser.continuations strength left) tokens
  continuation (left : Expr) (c : Continuation) (line : Nat) :
    SameOn (r.continuation left c line) (ofParser.continuation left c line) tokens
  operand : SameOn r.operand ofParser.operand tokens
  alternative : SameOn r.alternative ofParser.alternative tokens
  exprList (close : TokenKind) : SameOn (r.exprList close) (ofParser.exprList close) tokens
  moreExprs (close : TokenKind) : SameOn (r.moreExprs close) (ofParser.moreExprs close) tokens
  block (due : Expectation) : SameOn (r.block due) (ofParser.block due) tokens
  blockStatements : SameOn r.blockStatements ofParser.blockStatements tokens
  stmt : SameOn r.stmt ofParser.stmt tokens
  statements : SameOn r.statements ofParser.statements tokens

/-- The readings do the same with fewer tokens as the functions of the parser. -/
def SameBelow (r : Readings) (tokens : List Token) : Prop :=
  ∀ us : List Token, us.length < tokens.length → r.SameAsParser us

section Uniqueness

variable {past : ParseFailure} {r : Readings} {tokens : List Token}

/-- Readings that satisfy the equations may be compared by the right sides. -/
theorem sameOn_of_unroll {α : Type} (field : Readings → Reading α) (hr : r.unroll past = r)
    (h : SameOn (field (r.unroll past)) (field (ofParser.unroll past)) tokens) :
    SameOn (field r) (field ofParser) tokens := by
  rwa [hr, unroll_ofParser] at h

/-- A token that is due. -/
theorem token_same (hr : r.unroll past = r) (kind : TokenKind) (due : Expectation) :
    SameOn (r.token kind due) (ofParser.token kind due) tokens :=
  sameOn_of_unroll (·.token kind due) hr (.refl _ _)

/-- A name. -/
theorem name_same (hr : r.unroll past = r) (due : Expectation) :
    SameOn (r.name due) (ofParser.name due) tokens := by
  refine sameOn_of_unroll (·.name due) hr ?_
  dsimp only [unroll]
  exact (token_same hr _ _).map _

/-- The end of a statement. -/
theorem terminator_same (hr : r.unroll past = r) (closed : Bool) :
    SameOn (r.terminator closed) (ofParser.terminator closed) tokens :=
  sameOn_of_unroll (·.terminator closed) hr (.refl _ _)

variable (hr : r.unroll past = r) (below : r.SameBelow tokens)

include hr below

/-- The parameters behind a first one follow a comma. -/
theorem moreParams_same : SameOn r.moreParams ofParser.moreParams tokens := by
  refine sameOn_of_unroll Readings.moreParams hr (.look fun t us htokens => ?_)
  subst htokens
  obtain ⟨kind, text, line⟩ := t
  cases kind with
  | comma =>
    refine .stepOver fun vs hvs => (name_same hr _).andThen fun {_ rest _ _} hparam => ?_
    have hlt : rest.length < vs.length := (Parsed.of_map_pair hparam).1
    exact (below rest (Nat.lt_trans hlt hvs)).moreParams.map _
  | _ => exact .refl _ _

/-- The parameters of a function begin with a name. -/
theorem params_same : SameOn r.params ofParser.params tokens := by
  refine sameOn_of_unroll Readings.params hr (.look fun t us htokens => ?_)
  subst htokens
  by_cases hbar : t.kind = .bar
  · rw [if_pos hbar, if_pos hbar]
    exact .refl _ _
  · rw [if_neg hbar, if_neg hbar]
    refine (name_same hr _).andThen fun {_ rest _ _} hparam => ?_
    have hlt : rest.length < (t :: us).length := (Parsed.of_map_pair hparam).1
    exact (below rest hlt).moreParams.map _

/-- An operand begins with a token of its own. -/
theorem operand_same : SameOn r.operand ofParser.operand tokens := by
  refine sameOn_of_unroll Readings.operand hr (.look fun t us htokens => ?_)
  subst htokens
  obtain ⟨kind, text, line⟩ := t
  cases kind with
  | leftParen =>
    refine .stepOver fun vs hvs => ((below vs hvs).expr _).andThen fun _ => ?_
    exact (token_same hr _ _).map _
  | minus | bang => exact .stepOver fun vs hvs => ((below vs hvs).expr _).map _
  | bar =>
    refine .stepOver fun vs hvs => (below vs hvs).params.andThen fun {_ rest _ _} hparams => ?_
    have hlt : rest.length < vs.length := (Parsed.of_map_pair hparams).1
    exact ((below rest (Nat.lt_trans hlt hvs)).block _).map _
  | leftBracket => exact .stepOver fun vs hvs => ((below vs hvs).exprList _).map _
  | kwIf =>
    refine .stepOver fun vs hvs => ((below vs hvs).expr _).andThen
      fun {_ rest _ _} hcondition => ?_
    have hlt : rest.length < vs.length := (Parsed.of_map_pair hcondition).1
    refine ((below rest (Nat.lt_trans hlt hvs)).block _).andThen
      fun {_ rest' _ _} hconsequence => ?_
    have hlt' : rest'.length < rest.length := (Parsed.of_map_pair hconsequence).1
    exact (below rest' (Nat.lt_trans hlt' (Nat.lt_trans hlt hvs))).alternative.map _
  | _ => exact .refl _ _

/-- An expression begins with an operand. -/
theorem expr_same (strength : Nat) : SameOn (r.expr strength) (ofParser.expr strength) tokens := by
  refine sameOn_of_unroll (·.expr strength) hr (.deeper ?_)
  refine (operand_same hr below).andThen fun {left rest _ _} hleft => ?_
  have hlt : rest.length < tokens.length := (Parsed.of_map_pair hleft).1
  exact (below rest hlt).continuations strength left

/-- Continuations begin with a token of their own. -/
theorem continuations_same (strength : Nat) (left : Expr) :
    SameOn (r.continuations strength left) (ofParser.continuations strength left) tokens := by
  refine sameOn_of_unroll (·.continuations strength left) hr (.look fun t us htokens => ?_)
  subst htokens
  cases t.kind.continuation? with
  | none => exact .refl _ _
  | some c =>
    dsimp only
    by_cases hstrength : strength < c.binding
    · rw [if_pos hstrength, if_pos hstrength]
      refine .stepOver fun vs hvs => ((below vs hvs).continuation left c t.line).andThen
        fun {longer rest _ _} hlonger => ?_
      have hlt : rest.length < vs.length := (Parsed.of_map_pair hlonger).1
      exact (below rest (Nat.lt_trans hlt hvs)).continuations strength longer
    · rw [if_neg hstrength, if_neg hstrength]
      exact .refl _ _

/-- Expressions up to a closing token may begin with an expression. -/
theorem exprList_same (close : TokenKind) :
    SameOn (r.exprList close) (ofParser.exprList close) tokens := by
  refine sameOn_of_unroll (·.exprList close) hr (.look fun t us htokens => ?_)
  subst htokens
  by_cases hclose : t.kind = close
  · rw [if_pos hclose, if_pos hclose]
    exact .refl _ _
  · rw [if_neg hclose, if_neg hclose]
    refine (expr_same hr below _).andThen fun {_ rest _ _} hfirst => ?_
    have hlt : rest.length < (t :: us).length := (Parsed.of_map_pair hfirst).1
    exact ((below rest hlt).moreExprs close).map _

/-- A continuation may begin with an expression. -/
theorem continuation_same (left : Expr) (c : Continuation) (line : Nat) :
    SameOn (r.continuation left c line) (ofParser.continuation left c line) tokens := by
  refine sameOn_of_unroll (·.continuation left c line) hr ?_
  dsimp only [unroll]
  cases c with
  | call => exact (exprList_same hr below _).map _
  | index => exact (expr_same hr below _).andThen fun _ => (token_same hr _ _).map _
  | arrow | binary => exact (expr_same hr below _).map _

/-- The `else` part of an `if` begins with a token of its own. -/
theorem alternative_same : SameOn r.alternative ofParser.alternative tokens := by
  refine sameOn_of_unroll Readings.alternative hr (.look fun t us htokens => ?_)
  subst htokens
  by_cases helse : t.kind = .kwElse
  · rw [if_pos helse, if_pos helse]
    exact .stepOver fun vs hvs => ((below vs hvs).block _).map _
  · rw [if_neg helse, if_neg helse]
    exact .refl _ _

/-- The expressions behind a first one begin with a comma. -/
theorem moreExprs_same (close : TokenKind) :
    SameOn (r.moreExprs close) (ofParser.moreExprs close) tokens := by
  refine sameOn_of_unroll (·.moreExprs close) hr (.look fun t us htokens => ?_)
  subst htokens
  by_cases hcomma : t.kind = .comma
  · rw [if_pos hcomma, if_pos hcomma]
    refine .stepOver fun vs hvs => ((below vs hvs).expr _).andThen fun {_ rest _ _} hnext => ?_
    have hlt : rest.length < vs.length := (Parsed.of_map_pair hnext).1
    exact ((below rest (Nat.lt_trans hlt hvs)).moreExprs close).map _
  · rw [if_neg hcomma, if_neg hcomma]
    exact (token_same hr _ _).map _

/-- A block begins with a brace. -/
theorem block_same (due : Expectation) : SameOn (r.block due) (ofParser.block due) tokens := by
  refine sameOn_of_unroll (·.block due) hr ?_
  dsimp only [unroll]
  refine (token_same hr _ _).andThen fun {_ rest _ _} hbrace => ?_
  have hlt : rest.length < tokens.length := (Parsed.of_map_pair hbrace).1
  exact (below rest hlt).blockStatements.map _

/-- A statement may begin with an expression. -/
theorem stmt_same : SameOn r.stmt ofParser.stmt tokens := by
  refine sameOn_of_unroll Readings.stmt hr ?_
  dsimp only [unroll]
  refine .andThen (.here fun t => ?_) fun _ => (terminator_same hr _).map _
  obtain ⟨kind, text, line⟩ := t
  cases kind with
  | kwVar =>
    refine .stepOver fun vs hvs => (name_same hr _).andThen fun {_ rest _ _} htarget => ?_
    have hlt : rest.length < vs.length := (Parsed.of_map_pair htarget).1
    refine (token_same hr _ _).andThen fun {_ rest' _ _} hequals => ?_
    have hlt' : rest'.length < rest.length := (Parsed.of_map_pair hequals).1
    exact ((below rest' (Nat.lt_trans hlt' (Nat.lt_trans hlt hvs))).expr _).map _
  | kwReturn => exact .stepOver fun vs hvs => ((below vs hvs).expr _).map _
  | _ => exact (expr_same hr below _).map _

/-- The statements of a block may begin with a statement. -/
theorem blockStatements_same : SameOn r.blockStatements ofParser.blockStatements tokens := by
  refine sameOn_of_unroll Readings.blockStatements hr (.look fun t us htokens => ?_)
  subst htokens
  by_cases hbrace : t.kind = .rightBrace
  · rw [if_pos hbrace, if_pos hbrace]
    exact .refl _ _
  · rw [if_neg hbrace, if_neg hbrace]
    refine (stmt_same hr below).andThen fun {_ rest _ _} hfirst => ?_
    have hlt : rest.length < (t :: us).length := (Parsed.of_map_pair hfirst).1
    exact (below rest hlt).blockStatements.map _

/-- All statements begin with a statement. -/
theorem statements_same : SameOn r.statements ofParser.statements tokens := by
  refine sameOn_of_unroll Readings.statements hr (.look fun t us htokens => ?_)
  subst htokens
  refine (stmt_same hr below).andThen fun {_ rest _ _} hfirst => ?_
  have hlt : rest.length < (t :: us).length := (Parsed.of_map_pair hfirst).1
  exact (below rest hlt).statements.map _

omit below

/-- Readings that satisfy the equations do the same as the functions of the parser. -/
theorem sameAsParser (tokens : List Token) : r.SameAsParser tokens := by
  have below : r.SameBelow tokens := fun us _ => sameAsParser us
  exact ⟨moreParams_same hr below, params_same hr below, expr_same hr below,
    continuations_same hr below, continuation_same hr below, operand_same hr below,
    alternative_same hr below, exprList_same hr below, moreExprs_same hr below,
    block_same hr below, blockStatements_same hr below, stmt_same hr below,
    statements_same hr below⟩
termination_by tokens.length

/-- Readings that satisfy the equations are the functions of the parser. -/
theorem eq_ofParser : r = ofParser := by
  have hsame := fun tokens => sameAsParser hr tokens
  exact Readings.ext
    (funext fun kind => funext fun due => SameOn.eq fun _ => token_same hr kind due)
    (funext fun due => SameOn.eq fun _ => name_same hr due)
    (funext fun closed => SameOn.eq fun _ => terminator_same hr closed)
    (SameOn.eq fun tokens => (hsame tokens).moreParams)
    (SameOn.eq fun tokens => (hsame tokens).params)
    (funext fun strength => SameOn.eq fun tokens => (hsame tokens).expr strength)
    (funext fun strength => funext fun left => SameOn.eq fun tokens =>
      (hsame tokens).continuations strength left)
    (funext fun left => funext fun c => funext fun line => SameOn.eq fun tokens =>
      (hsame tokens).continuation left c line)
    (SameOn.eq fun tokens => (hsame tokens).operand)
    (SameOn.eq fun tokens => (hsame tokens).alternative)
    (funext fun close => SameOn.eq fun tokens => (hsame tokens).exprList close)
    (funext fun close => SameOn.eq fun tokens => (hsame tokens).moreExprs close)
    (funext fun due => SameOn.eq fun tokens => (hsame tokens).block due)
    (SameOn.eq fun tokens => (hsame tokens).blockStatements)
    (SameOn.eq fun tokens => (hsame tokens).stmt)
    (SameOn.eq fun tokens => (hsame tokens).statements)

end Uniqueness

/-- The functions of the parser are the only readings that satisfy the equations. -/
theorem unroll_eq_self_iff (past : ParseFailure) (r : Readings) :
    r.unroll past = r ↔ r = ofParser := by
  constructor
  · exact eq_ofParser
  · rintro rfl
    exact unroll_ofParser past

/-- However often the equations are unrolled, they leave the functions of the parser as they are. -/
theorem iterate_unroll_ofParser (past : ParseFailure) (rounds : Nat) :
    (unroll past)^[rounds] ofParser = ofParser :=
  Function.iterate_fixed (unroll_ofParser past) rounds

end Readings

end Parser

/-- A text is read as the unrolled equations have it. -/
theorem parse_eq_unrolled (rounds : Nat) (depth : Depth) (source : String) :
    parse depth source =
      ((((Parser.Readings.unroll .oversizedLiteral)^[rounds] .ofParser).statements depth
        (tokenStream source).endLine (tokenStream source).tokens).map Prod.fst) := by
  rw [Parser.Readings.iterate_unroll_ofParser]
  simp only [parse, Parser.Readings.ofParser, Parser.Reading.statements]
  cases Parser.statements (tokenStream source).endLine depth (tokenStream source).tokens <;> rfl

end EtherLang.Surface
