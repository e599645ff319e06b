import EtherLang.Ast.Desugar
import EtherLang.Proofs.Surface.Viability
import EtherLang.Proofs.Token.LongestMatch

/-!
# How many levels reading goes down

Reading goes down one level for an expression and takes at least one token before it comes to an
expression inside. So it never goes down more levels than there are tokens, and neither does
desugaring. A text is the same program at every depth that is greater than the number of its
characters.
-/

namespace EtherLang

namespace Surface.Parser

/-- The reading does not fail for want of levels. -/
def Fits {α : Type} (reading : Reading α) (depth : Depth) (endLine : Nat) (tokens : List Token) :
    Prop :=
  ∀ line, reading depth endLine tokens ≠ .error (.rejected ⟨.tooDeep, line⟩)

namespace Fits

variable {α β : Type} {reading : Reading α} {depth : Depth} {endLine levels : Nat}
  {tokens us : List Token} {t : Token}

/-- Reading nothing goes down no level. -/
theorem done (a : α) : Fits (.done a) depth endLine tokens :=
  nofun

/-- A token is rejected for another cause. -/
theorem failNext {cause : Token → ParseError.Cause} (h : ∀ t, cause t ≠ .tooDeep) :
    Fits (.failNext cause : Reading α) depth endLine tokens := by
  intro line hfail
  have hcause := congrArg ParseError.cause (ParseFailure.rejected.inj (Except.error.inj hfail))
  exact h _ hcause

/-- Going on by the next token. -/
theorem look {atEnd : Reading α} {next : Token → Reading α}
    (hnil : Fits atEnd depth endLine []) (hcons : ∀ t us, tokens = t :: us →
      Fits (next t) depth endLine (t :: us)) :
    Fits (.look atEnd next) depth endLine tokens := by
  cases tokens with
  | nil => exact hnil
  | cons t us => exact hcons t us rfl

/-- Going on by the next token, be it the end of the input. -/
theorem here {next : Token → Reading α}
    (h : Fits (next (peek endLine tokens)) depth endLine tokens) :
    Fits (.here next) depth endLine tokens :=
  h

/-- Going on behind a token. -/
theorem skip (h : Fits reading depth endLine us) :
    Fits reading.skip depth endLine (t :: us) :=
  h

/-- Going on one level further down. -/
theorem deeper (h : Fits reading (.atMost levels) endLine tokens) :
    Fits reading.deeper (.atMost (levels + 1)) endLine tokens :=
  h

/-- Reading one thing and then another. -/
theorem andThen {next : α → Reading β} (h : Fits reading depth endLine tokens)
    (hnext : ∀ a us, reading depth endLine tokens = .ok (a, us) →
      Fits (next a) depth endLine us) :
    Fits (reading.andThen next) depth endLine tokens := by
  intro line hdeep
  rw [Reading.andThen] at hdeep
  cases hread : reading depth endLine tokens with
  | error failure =>
    rw [hread] at hdeep
    cases hdeep
    exact h line hread
  | ok p =>
    rw [hread] at hdeep
    exact hnext p.1 p.2 hread line hdeep

/-- Reading one thing of which something is made. -/
theorem map {f : α → β} (h : Fits reading depth endLine tokens) :
    Fits (reading.andThen fun a => .done (f a)) depth endLine tokens :=
  h.andThen fun _ _ _ => .done _

/-- A token that is due. -/
theorem token (kind : TokenKind) (due : Expectation) :
    Fits (.token kind due) depth endLine tokens := by
  rw [Reading.token_eq]
  refine .look (.failNext nofun) fun t us _ => ?_
  split
  · exact .done _
  · exact .failNext nofun

/-- A name. -/
theorem name (due : Expectation) : Fits (.name due) depth endLine tokens := by
  rw [Reading.name_eq]
  exact (token .ident due).map

/-- The end of a statement. -/
theorem terminator (closed : Bool) : Fits (.terminator closed) depth endLine tokens := by
  rw [Reading.terminator_eq]
  refine .look (.done _) fun t us _ => ?_
  split
  · exact .done _
  · split
    · exact .done _
    · exact .failNext nofun

/-- A numeral. -/
theorem numeral (t : Token) : Fits (.numeral t) depth endLine tokens := by
  intro line hdeep
  rw [Reading.numeral, literal] at hdeep
  split at hdeep
  · cases hdeep
  · split at hdeep <;> cases hdeep

/-- The parameters behind a first one. -/
theorem moreParams {tokens : List Token} : Fits .moreParams depth endLine tokens := by
  rw [Reading.moreParams_eq]
  refine .look (.failNext nofun) fun t us htokens => ?_
  split
  · refine .skip ((name .parameter).andThen fun param rest hparam => ?_)
    have hlt : rest.length < us.length := (Parsed.of_map_pair hparam).1
    have hmore : Fits .moreParams depth endLine rest := moreParams
    exact hmore.map
  · exact .done _
  · exact .failNext nofun
termination_by tokens.length
decreasing_by simp only [htokens, List.length_cons]; omega

/-- The parameters of a function. -/
theorem params : Fits .params depth endLine tokens := by
  rw [Reading.params_eq]
  refine .look (.failNext nofun) fun t us _ => ?_
  split
  · exact .done _
  · exact (name .parameter).andThen fun _ _ _ => moreParams.map

end Fits

section Functions

variable (endLine : Nat)

/-- The functions of the parser read the tokens with as many levels as there are tokens, and with
one more where an expression may come first. -/
structure Roomy (tokens : List Token) : Prop where
  expr : ∀ {levels} strength, tokens.length < levels →
    Fits (.expr strength) (.atMost levels) endLine tokens
  continuations : ∀ {levels} strength left, tokens.length ≤ levels →
    Fits (.continuations strength left) (.atMost levels) endLine tokens
  continuation : ∀ {levels} left c line, tokens.length < levels →
    Fits (.continuation left c line) (.atMost levels) endLine tokens
  alternative : ∀ {levels}, tokens.length ≤ levels →
    Fits .alternative (.atMost levels) endLine tokens
  exprList : ∀ {levels} close, tokens.length < levels →
    Fits (.exprList close) (.atMost levels) endLine tokens
  moreExprs : ∀ {levels} close, tokens.length ≤ levels →
    Fits (.moreExprs close) (.atMost levels) endLine tokens
  block : ∀ {levels} due, tokens.length ≤ levels →
    Fits (.block due) (.atMost levels) endLine tokens
  blockStatements : ∀ {levels}, tokens.length < levels →
    Fits .blockStatements (.atMost levels) endLine tokens
  stmt : ∀ {levels}, tokens.length < levels → Fits .stmt (.atMost levels) endLine tokens

/-- The functions of the parser have enough levels for fewer tokens. -/
def RoomyBelow (tokens : List Token) : Prop :=
  ∀ us : List Token, us.length < tokens.length → Roomy endLine us

variable {endLine} {levels : Nat} {tokens : List Token}

/-- An operand begins with a token of its own. -/
theorem operand_fits (below : RoomyBelow endLine tokens) (h : tokens.length ≤ levels) :
    Fits .operand (.atMost levels) endLine tokens := by
  rw [Reading.operand_eq]
  refine .look (.failNext nofun) fun t us htokens => ?_
  subst htokens
  have hlevels : us.length < levels := h
  have next : Roomy endLine us := below us (Nat.lt_succ_self _)
  split
  · exact .numeral t
  · exact .done _
  · exact .done _
  · exact .done _
  · exact .skip ((next.expr _ hlevels).andThen fun _ _ _ => (Fits.token _ _).map)
  · exact .skip (next.expr _ hlevels).map
  · exact .skip (next.expr _ hlevels).map
  · refine .skip (Fits.params.andThen fun names rest hparams => ?_)
    have hlt : rest.length < us.length := (Parsed.of_map_pair hparams).1
    exact ((below rest (Nat.lt_succ_of_lt hlt)).block _ (by omega)).map
  · exact .skip (next.exprList _ hlevels).map
  · refine .skip ((next.expr _ hlevels).andThen fun condition rest hcondition => ?_)
    have hlt : rest.length < us.length := (Parsed.of_map_pair hcondition).1
    refine ((below rest (Nat.lt_succ_of_lt hlt)).block _ (by omega)).andThen
      fun consequence rest' hconsequence => ?_
    have hlt' : rest'.length < rest.length := (Parsed.of_map_pair hconsequence).1
    have hbelow : rest'.length < (t :: us).length := Nat.lt_succ_of_lt (Nat.lt_trans hlt' hlt)
    exact ((below rest' hbelow).alternative (by omega)).map
  · exact .failNext (by rintro _ ⟨⟩)
  · exact .failNext (by rintro _ ⟨⟩)

/-- An expression goes down one level. -/
theorem expr_fits (below : RoomyBelow endLine tokens) (strength : Nat)
    (h : tokens.length < levels) :
    Fits (.expr strength) (.atMost levels) endLine tokens := by
  rw [Reading.expr_eq]
  cases levels with
  | zero => exact absurd h (Nat.not_lt_zero _)
  | succ levels =>
    have hlevels := Nat.le_of_lt_succ h
    refine .deeper ((operand_fits below hlevels).andThen fun left rest hleft => ?_)
    have hlt : rest.length < tokens.length := (Parsed.of_map_pair hleft).1
    exact (below rest hlt).continuations strength left (Nat.le_trans (Nat.le_of_lt hlt) hlevels)

/-- Continuations begin with a token of their own. -/
theorem continuations_fits (below : RoomyBelow endLine tokens) (strength : Nat) (left : Expr)
    (h : tokens.length ≤ levels) :
    Fits (.continuations strength left) (.atMost levels) endLine tokens := by
  rw [Reading.continuations_eq]
  refine .look (.done _) fun t us htokens => ?_
  subst htokens
  have hlevels : us.length < levels := h
  split
  · exact .done _
  · next c hc =>
    split
    · refine .skip (((below us (Nat.lt_succ_self _)).continuation left c t.line hlevels).andThen
        fun longer rest hlonger => ?_)
      have hlt : rest.length < us.length := (Parsed.of_map_pair hlonger).1
      exact (below rest (Nat.lt_succ_of_lt hlt)).continuations strength longer (by omega)
    · exact .done _

/-- Expressions up to a closing token may begin with an expression. -/
theorem exprList_fits (below : RoomyBelow endLine tokens) (close : TokenKind)
    (h : tokens.length < levels) : Fits (.exprList close) (.atMost levels) endLine tokens := by
  rw [Reading.exprList_eq]
  refine .look (.failNext nofun) fun t us htokens => ?_
  subst htokens
  split
  · exact .done _
  · refine (expr_fits below _ h).andThen fun first rest hfirst => ?_
    have hlt : rest.length < (t :: us).length := (Parsed.of_map_pair hfirst).1
    exact ((below rest hlt).moreExprs close (by omega)).map

/-- A continuation may begin with an expression. -/
theorem continuation_fits (below : RoomyBelow endLine tokens) (left : Expr) (c : Continuation)
    (line : Nat) (h : tokens.length < levels) :
    Fits (.continuation left c line) (.atMost levels) endLine tokens := by
  rw [Reading.continuation_eq]
  cases c with
  | call => exact (exprList_fits below _ h).map
  | index => exact (expr_fits below _ h).andThen fun _ _ _ => (Fits.token _ _).map
  | arrow | binary => exact (expr_fits below _ h).map

/-- The `else` part of an `if` begins with a token of its own. -/
theorem alternative_fits (below : RoomyBelow endLine tokens) (h : tokens.length ≤ levels) :
    Fits .alternative (.atMost levels) endLine tokens := by
  rw [Reading.alternative_eq]
  refine .look (.done _) fun t us htokens => ?_
  subst htokens
  split
  · exact .skip ((below us (Nat.lt_succ_self _)).block _ (Nat.le_of_lt h)).map
  · exact .done _

/-- The expressions behind a first one begin with a comma. -/
theorem moreExprs_fits (below : RoomyBelow endLine tokens) (close : TokenKind)
    (h : tokens.length ≤ levels) : Fits (.moreExprs close) (.atMost levels) endLine tokens := by
  rw [Reading.moreExprs_eq]
  refine .look (.failNext nofun) fun t us htokens => ?_
  subst htokens
  have hlevels : us.length < levels := h
  split
  · refine .skip (((below us (Nat.lt_succ_self _)).expr _ hlevels).andThen
      fun next rest hnext => ?_)
    have hlt : rest.length < us.length := (Parsed.of_map_pair hnext).1
    exact ((below rest (Nat.lt_succ_of_lt hlt)).moreExprs close (by omega)).map
  · exact (Fits.token _ _).map

/-- A block begins with a brace. -/
theorem block_fits (below : RoomyBelow endLine tokens) (due : Expectation)
    (h : tokens.length ≤ levels) : Fits (.block due) (.atMost levels) endLine tokens := by
  rw [Reading.block_eq]
  refine (Fits.token _ _).andThen fun brace rest hbrace => ?_
  have hlt : rest.length < tokens.length := (Parsed.of_map_pair hbrace).1
  exact ((below rest hlt).blockStatements (by omega)).map

/-- What follows the word `var` begins with tokens of its own. -/
theorem varBody_fits (below : RoomyBelow endLine tokens) (line : Nat) (h : tokens.length ≤ levels) :
    Fits (.varBody line) (.atMost levels) endLine tokens := by
  refine (Fits.name _).andThen fun target rest htarget => ?_
  have hlt : rest.length < tokens.length := (Parsed.of_map_pair htarget).1
  refine (Fits.token _ _).andThen fun equals rest' hequals => ?_
  have hlt' : rest'.length < rest.length := (Parsed.of_map_pair hequals).1
  exact ((below rest' (Nat.lt_trans hlt' hlt)).expr _ (by omega)).map

/-- A statement may begin with an expression. -/
theorem stmt_fits (below : RoomyBelow endLine tokens) (h : tokens.length < levels) :
    Fits .stmt (.atMost levels) endLine tokens := by
  rw [Reading.stmt_eq]
  have hexpr (line : Nat) : Fits (.exprBody line) (.atMost levels) endLine tokens :=
    (expr_fits below _ h).map
  have hbody : Fits .stmtBody (.atMost levels) endLine tokens := by
    cases tokens with
    | nil => exact .here (hexpr _)
    | cons t us =>
      have hlevels : us.length < levels := Nat.lt_of_succ_lt h
      refine .here ?_
      split
      · exact .skip (varBody_fits (fun vs hvs => below vs (Nat.lt_succ_of_lt hvs)) _
          (Nat.le_of_lt hlevels))
      · exact .skip ((below us (Nat.lt_succ_self _)).expr _ hlevels).map
      · exact hexpr _
  exact hbody.andThen fun _ _ _ => (Fits.terminator _).map

/-- The statements of a block may begin with an expression. -/
theorem blockStatements_fits (below : RoomyBelow endLine tokens) (h : tokens.length < levels) :
    Fits .blockStatements (.atMost levels) endLine tokens := by
  rw [Reading.blockStatements_eq]
  refine .look (.failNext nofun) fun t us htokens => ?_
  subst htokens
  split
  · exact .done _
  · refine (stmt_fits below h).andThen fun first rest hfirst => ?_
    have hlt : rest.length < (t :: us).length := (Parsed.of_map_pair hfirst).1
    exact ((below rest hlt).blockStatements (by omega)).map

/-- The functions of the parser have enough levels for any tokens. -/
theorem roomy (endLine : Nat) (tokens : List Token) : Roomy endLine tokens := by
  have below : RoomyBelow endLine tokens := fun us _ => roomy endLine us
  exact ⟨expr_fits below, continuations_fits below, continuation_fits below,
    alternative_fits below, exprList_fits below, moreExprs_fits below, block_fits below,
    blockStatements_fits below, stmt_fits below⟩
termination_by tokens.length

/-- A program is read with more levels than it has tokens. -/
theorem statements_fits {tokens : List Token} (h : tokens.length < levels) :
    Fits .statements (.atMost levels) endLine tokens := by
  rw [Reading.statements_eq]
  refine .look (.done _) fun t us htokens => ?_
  refine ((roomy endLine _).stmt (htokens ▸ h)).andThen fun first rest hfirst => ?_
  have hlt : rest.length < (t :: us).length := (Parsed.of_map_pair hfirst).1
  have hothers : Fits .statements (.atMost levels) endLine rest :=
    statements_fits (Nat.lt_trans hlt (htokens ▸ h))
  exact hothers.map
termination_by tokens.length
decreasing_by exact htokens ▸ hlt

end Functions

end Surface.Parser

namespace Surface

open Grammar

mutual

/-- An expression is desugared with as many levels as it has tokens. -/
theorem Grammar.Derives.desugar_atMost {s : Stratum} {ts : List Token} {e : Expr} {levels : Nat}
    (h : Derives s ts e) (hlevels : ts.length ≤ levels) :
    e.desugar (.atMost levels) = e.desugar .unbounded := by
  have hpos : ∃ n, levels = n + 1 := by
    obtain ⟨t, us, hts, _⟩ := h.exists_head
    rw [hts, List.length_cons] at hlevels
    exact ⟨levels - 1, by omega⟩
  obtain ⟨n, rfl⟩ := hpos
  match h with
  | .arrow hl _ hr | .binary _ hl _ hr =>
    simp only [List.length_append, List.length_cons] at hlevels
    rw [Expr.desugar.eq_def, Expr.desugar.eq_def]
    simp only [Depth.down?, hl.desugar_atMost (show _ ≤ n by omega),
      hr.desugar_atMost (show _ ≤ n by omega)]
  | .unary _ _ h =>
    simp only [List.length_cons] at hlevels
    rw [Expr.desugar.eq_def, Expr.desugar.eq_def]
    simp only [Depth.down?, h.desugar_atMost (show _ ≤ n by omega)]
  | .call hcallee _ hargs _ =>
    simp only [List.length_append, List.length_cons] at hlevels
    rw [Expr.desugar.eq_def, Expr.desugar.eq_def]
    simp only [Depth.down?, hcallee.desugar_atMost (show _ ≤ n by omega),
      hargs.desugar_atMost (show _ ≤ n by omega)]
  | .index harray _ hindex _ =>
    simp only [List.length_append, List.length_cons] at hlevels
    rw [Expr.desugar.eq_def, Expr.desugar.eq_def]
    simp only [Depth.down?, harray.desugar_atMost (show _ ≤ n by omega),
      hindex.desugar_atMost (show _ ≤ n by omega)]
  | .integer _ _ | .kwTrue _ | .kwFalse _ | .ident _ =>
    rw [Expr.desugar.eq_def, Expr.desugar.eq_def]
    rfl
  | .group _ h _ =>
    simp only [List.length_append, List.length_cons] at hlevels
    exact h.desugar_atMost (by omega)
  | .function _ _ _ hbody =>
    simp only [List.length_append, List.length_cons] at hlevels
    rw [Expr.desugar.eq_def, Expr.desugar.eq_def]
    simp only [Depth.down?, hbody.desugar_atMost (show _ ≤ n by omega)]
  | .array _ helements _ =>
    simp only [List.length_append, List.length_cons] at hlevels
    rw [Expr.desugar.eq_def, Expr.desugar.eq_def]
    simp only [Depth.down?, helements.desugar_atMost (show _ ≤ n by omega)]
  | .cond _ hcondition hconsequence =>
    simp only [List.length_append, List.length_cons] at hlevels
    rw [Expr.desugar.eq_def, Expr.desugar.eq_def]
    simp only [Depth.down?, hcondition.desugar_atMost (show _ ≤ n by omega),
      hconsequence.desugar_atMost (show _ ≤ n by omega)]
  | .condElse _ hcondition hconsequence _ halternative =>
    simp only [List.length_append, List.length_cons] at hlevels
    rw [Expr.desugar.eq_def, Expr.desugar.eq_def]
    simp only [Depth.down?, hcondition.desugar_atMost (show _ ≤ n by omega),
      hconsequence.desugar_atMost (show _ ≤ n by omega),
      halternative.desugar_atMost (show _ ≤ n by omega)]
  | .climb _ h => exact h.desugar_atMost hlevels
termination_by structural h

/-- Expressions are desugared with as many levels as they have tokens. -/
theorem Grammar.Items.desugar_atMost {ts : List Token} {es : List Expr} {levels : Nat}
    (h : Items ts es) (hlevels : ts.length ≤ levels) :
    desugarList (.atMost levels) es = desugarList .unbounded es := by
  match h with
  | .last h => simp only [desugarList, h.desugar_atMost hlevels]
  | .cons h _ hothers =>
    simp only [List.length_append, List.length_cons] at hlevels
    simp only [desugarList, h.desugar_atMost (show _ ≤ levels by omega),
      hothers.desugar_atMost (show _ ≤ levels by omega)]
termination_by structural h

/-- Arguments are desugared with as many levels as they have tokens. -/
theorem Grammar.Args.desugar_atMost {ts : List Token} {es : List Expr} {levels : Nat}
    (h : Args ts es) (hlevels : ts.length ≤ levels) :
    desugarList (.atMost levels) es = desugarList .unbounded es := by
  match h with
  | .none => rfl
  | .some h => exact h.desugar_atMost hlevels
termination_by structural h

/-- A block is desugared with as many levels as it has tokens. -/
theorem Grammar.Braces.desugar_atMost {ts : List Token} {body : Block} {levels : Nat}
    (h : Braces ts body) (hlevels : ts.length ≤ levels) :
    body.desugar (.atMost levels) = body.desugar .unbounded := by
  match h with
  | .mk _ hss _ =>
    simp only [List.length_append, List.length_cons] at hlevels
    simp only [Block.desugar, hss.desugar_atMost (show _ ≤ levels by omega)]
termination_by structural h

/-- A statement is desugared with as many levels as it has tokens. -/
theorem Grammar.Statement.desugar_atMost {ts : List Token} {s : Stmt} {levels : Nat}
    (h : Statement ts s) (hlevels : ts.length ≤ levels) :
    s.desugar (.atMost levels) = s.desugar .unbounded := by
  match h with
  | .var _ _ _ h =>
    simp only [List.length_cons] at hlevels
    simp only [Stmt.desugar, h.desugar_atMost (show _ ≤ levels by omega)]
  | .ret _ h =>
    simp only [List.length_cons] at hlevels
    simp only [Stmt.desugar, h.desugar_atMost (show _ ≤ levels by omega)]
  | .expr h => simp only [Stmt.desugar, h.desugar_atMost hlevels]
termination_by structural h

/-- Statements are desugared with as many levels as they have tokens. -/
theorem Grammar.Statements.desugar_atMost {ts : List Token} {ss : List Stmt} {levels : Nat}
    (h : Statements ts ss) (hlevels : ts.length ≤ levels) :
    desugarStatements (.atMost levels) ss = desugarStatements .unbounded ss := by
  match h with
  | .nil => rfl
  | .last h => simp only [desugarStatements, h.desugar_atMost hlevels]
  | .cons h _ hothers =>
    simp only [List.length_append, List.length_cons] at hlevels
    simp only [desugarStatements, h.desugar_atMost (show _ ≤ levels by omega),
      hothers.desugar_atMost (show _ ≤ levels by omega)]
  | .closed h _ _ hothers =>
    rw [List.length_append] at hlevels
    simp only [desugarStatements, h.desugar_atMost (show _ ≤ levels by omega),
      hothers.desugar_atMost (show _ ≤ levels by omega)]
termination_by structural h

end

/-- A text is read with more levels than it has tokens as it is read without a bound. -/
theorem parse_atMost {source : String} {levels : Nat}
    (h : (tokenStream source).tokens.length < levels) :
    parse (.atMost levels) source = parse .unbounded source := by
  obtain ⟨line, hdeep⟩ | hsame := parse_of_le (Depth.le_unbounded (.atMost levels)) source
  · have hfails := Parser.Reading.statements_eq_error_iff.mpr hdeep
    exact absurd hfails (Parser.statements_fits h line)
  · exact hsame.symm

end Surface

/-- A text has at most as many tokens as characters. -/
theorem length_tokens_le (source : String) :
    (tokenStream source).tokens.length ≤ source.length := by
  obtain ⟨pieces, last, hcut, htokens, _⟩ := exists_isCutInto 1 source.toList
  rw [tokenStream, htokens, List.length_map, ← String.length_toList]
  exact hcut.length_le

/-- A text is the same program, or is rejected in the same way, at every depth that is greater than
the number of its characters. -/
theorem parse_of_length_lt {source : String} {depth : Depth}
    (hdepth : .atMost (source.length + 1) ≤ depth) :
    parse depth source = parse .unbounded source := by
  cases depth with
  | unbounded => rfl
  | atMost levels =>
    have hlevels : (tokenStream source).tokens.length < levels :=
      Nat.lt_of_le_of_lt (length_tokens_le source) hdepth
    rw [parse, parse, Surface.parse_atMost hlevels]
    cases hread : Surface.parse .unbounded source with
    | error failure => rfl
    | ok ss =>
      have hderived : Surface.Grammar.Statements (tokenStream source).tokens ss :=
        Surface.Parser.statements_sound hread
      simp only [desugar, bind, Except.bind, hderived.desugar_atMost (Nat.le_of_lt hlevels)]

end EtherLang
