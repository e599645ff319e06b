import EtherLang.Depth
import EtherLang.Integer
import EtherLang.ParseError
import EtherLang.Surface
import EtherLang.Text.Decimal
import EtherLang.Token.Scanner

/-!
# Reading surface trees

Expressions are read by binding strength: an operand first, then every continuation that binds
more strongly than the context. Each function takes the tokens from the first token of a construct
on and returns the construct with the tokens after it. That these are fewer is part of the result,
so the recursion is on the number of tokens left.

The end of the input is not a token of the list; `endLine` is its line.
-/

namespace EtherLang.Surface

namespace Parser

/-- Something read from the head of a list of tokens, with the fewer tokens that follow it. -/
structure Parsed (α : Type) (tokens : List Token) where
  value : α
  rest : List Token
  shorter : rest.length < tokens.length

/-- The tokens left after an optional part at the head of a list of tokens. -/
structure Remaining (α : Type) (tokens : List Token) where
  value : α
  rest : List Token
  le : rest.length ≤ tokens.length

variable (endLine : Nat)

/-- The next token, which is the end of the input if there is none. -/
def peek (tokens : List Token) : Token :=
  tokens.head?.getD (Token.endOfInput endLine)

/-- Rejects the text. -/
def reject {α : Type} (cause : ParseError.Cause) (line : Nat) : Except ParseFailure α :=
  .error (.rejected ⟨cause, line⟩)

/-- Rejects the text because the next token is not the one that is due. -/
def rejectNext {α : Type} (due : Expectation) (tokens : List Token) : Except ParseFailure α :=
  let got := peek endLine tokens
  reject (.expected due got) got.line

/-- Reads a token of the kind that is due. -/
def expect (kind : TokenKind) (due : Expectation) (tokens : List Token) :
    Except ParseFailure (Parsed Token tokens) :=
  match tokens with
  | [] => rejectNext endLine due []
  | t :: rest =>
    if t.kind = kind then .ok ⟨t, rest, by simp⟩ else rejectNext endLine due (t :: rest)

/-- Reads a name. -/
def expectIdent (due : Expectation) (tokens : List Token) :
    Except ParseFailure (Parsed Ident tokens) := do
  let ⟨t, rest, h⟩ ← expect endLine .ident due tokens
  return ⟨⟨t.text, t.line⟩, rest, h⟩

/-- Reads the end of a statement. The semicolon may be missing before a closing brace, at the end
of the input and after a statement that is `closed` by a brace of its own. -/
def terminator (closed : Bool) (tokens : List Token) :
    Except ParseFailure (Remaining Unit tokens) :=
  match tokens with
  | [] => .ok ⟨(), [], by simp⟩
  | t :: rest =>
    if t.kind = .semicolon then .ok ⟨(), rest, by simp⟩
    else if closed || t.kind = .rightBrace then .ok ⟨(), t :: rest, by simp⟩
    else rejectNext endLine .terminator (t :: rest)

/-- Reads the parameters that follow a first one, up to the closing bar. -/
def moreParams (tokens : List Token) : Except ParseFailure (Parsed (List Ident) tokens) :=
  match tokens with
  | [] => rejectNext endLine .parametersClose []
  | t :: rest =>
    match t.kind with
    | .comma => do
      let ⟨param, rest₁, h₁⟩ ← expectIdent endLine .parameter rest
      let ⟨params, rest₂, h₂⟩ ← moreParams rest₁
      return ⟨param :: params, rest₂, by simp only [List.length_cons]; omega⟩
    | .bar => .ok ⟨[], rest, by simp⟩
    | _ => rejectNext endLine .parametersClose (t :: rest)
termination_by tokens.length
decreasing_by simp only [List.length_cons]; omega

/-- Reads the parameters after the opening bar of a function, up to the closing bar. -/
def params (tokens : List Token) : Except ParseFailure (Parsed (List Ident) tokens) :=
  match tokens with
  | [] => rejectNext endLine .parameter []
  | t :: rest =>
    if t.kind = .bar then .ok ⟨[], rest, by simp⟩
    else do
      let ⟨param, rest₁, h₁⟩ ← expectIdent endLine .parameter (t :: rest)
      let ⟨params, rest₂, h₂⟩ ← moreParams endLine rest₁
      return ⟨param :: params, rest₂, by omega⟩

/-- Reads a numeral, which has to denote an integer of the language. -/
def literal (t : Token) : Except ParseFailure Expr :=
  if t.text.length > Text.maxDigits then .error .oversizedLiteral
  else if Text.ofAsciiDigits t.text ≤ Integer.maxValue then .ok (.integer t.text t.line)
  else reject (.literalOutOfRange t.text) t.line

mutual

/-- Reads an expression all of whose operators bind more strongly than `strength`. -/
def expr (depth : Depth) (strength : Nat) (tokens : List Token) :
    Except ParseFailure (Parsed Expr tokens) :=
  match depth.down? with
  | none => reject .tooDeep (peek endLine tokens).line
  | some depth => do
    let ⟨left, rest₁, h₁⟩ ← operand depth tokens
    let ⟨whole, rest₂, h₂⟩ ← continuations depth strength left rest₁
    return ⟨whole, rest₂, by omega⟩
termination_by (tokens.length, 1)

/-- Extends an expression by the continuations that bind more strongly than `strength`. -/
def continuations (depth : Depth) (strength : Nat) (left : Expr) (tokens : List Token) :
    Except ParseFailure (Remaining Expr tokens) :=
  match tokens with
  | [] => .ok ⟨left, [], by simp⟩
  | t :: rest =>
    match t.kind.continuation? with
    | none => .ok ⟨left, t :: rest, by simp⟩
    | some c =>
      if strength < c.binding then do
        let ⟨longer, rest₁, h₁⟩ ← continuation depth left c t.line rest
        let ⟨whole, rest₂, h₂⟩ ← continuations depth strength longer rest₁
        return ⟨whole, rest₂, by simp only [List.length_cons]; omega⟩
      else
        .ok ⟨left, t :: rest, by simp⟩
termination_by (tokens.length, 0)

/-- Extends an expression by one continuation, whose first token has been read on `line`. -/
def continuation (depth : Depth) (left : Expr) (c : Continuation) (line : Nat)
    (tokens : List Token) : Except ParseFailure (Parsed Expr tokens) :=
  match c with
  | .call => do
    let ⟨args, rest₁, h₁⟩ ← exprList depth .rightParen tokens
    return ⟨.call left args line, rest₁, h₁⟩
  | .index => do
    let ⟨position, rest₁, h₁⟩ ← expr depth Binding.lowest tokens
    let ⟨_, rest₂, h₂⟩ ← expect endLine .rightBracket .indexClose rest₁
    return ⟨.index left position line, rest₂, by omega⟩
  | .arrow => do
    let ⟨target, rest₁, h₁⟩ ← expr depth Binding.arrow tokens
    return ⟨.arrow left target line, rest₁, h₁⟩
  | .binary op => do
    let ⟨right, rest₁, h₁⟩ ← expr depth op.binding tokens
    return ⟨.binary op left right line, rest₁, h₁⟩
termination_by (tokens.length, 3)

/-- Reads an operand: a literal, a name, a group, a unary operator with its operand, a function,
an array or an `if`. -/
def operand (depth : Depth) (tokens : List Token) : Except ParseFailure (Parsed Expr tokens) :=
  match tokens with
  | [] => reject (.unexpected (Token.endOfInput endLine)) endLine
  | t :: rest =>
    match t.kind with
    | .integer => do
      let value ← literal t
      return ⟨value, rest, by simp⟩
    | .kwTrue => .ok ⟨.boolean true t.line, rest, by simp⟩
    | .kwFalse => .ok ⟨.boolean false t.line, rest, by simp⟩
    | .ident => .ok ⟨.ident t.text t.line, rest, by simp⟩
    | .leftParen => do
      let ⟨inner, rest₁, h₁⟩ ← expr depth Binding.lowest rest
      let ⟨_, rest₂, h₂⟩ ← expect endLine .rightParen .groupClose rest₁
      return ⟨inner, rest₂, by simp only [List.length_cons]; omega⟩
    | .minus => do
      let ⟨inner, rest₁, h₁⟩ ← expr depth Binding.unary rest
      return ⟨.unary .negate inner t.line, rest₁, by simp only [List.length_cons]; omega⟩
    | .bang => do
      let ⟨inner, rest₁, h₁⟩ ← expr depth Binding.unary rest
      return ⟨.unary .not inner t.line, rest₁, by simp only [List.length_cons]; omega⟩
    | .bar => do
      let ⟨names, rest₁, h₁⟩ ← params endLine rest
      let ⟨body, rest₂, h₂⟩ ← block depth .functionBody rest₁
      return ⟨.function names body t.line, rest₂, by simp only [List.length_cons]; omega⟩
    | .leftBracket => do
      let ⟨elements, rest₁, h₁⟩ ← exprList depth .rightBracket rest
      return ⟨.array elements t.line, rest₁, by simp only [List.length_cons]; omega⟩
    | .kwIf => do
      let ⟨condition, rest₁, h₁⟩ ← expr depth Binding.lowest rest
      let ⟨consequence, rest₂, h₂⟩ ← block depth .ifBody rest₁
      let ⟨alternative, rest₃, h₃⟩ ← alternative depth rest₂
      let whole := .cond condition consequence alternative t.line
      return ⟨whole, rest₃, by simp only [List.length_cons]; omega⟩
    | .illegal => reject (.illegalCharacter t.text) t.line
    | _ => reject (.unexpected t) t.line
termination_by (tokens.length, 0)

/-- Reads the `else` part of an `if`, if there is one. -/
def alternative (depth : Depth) (tokens : List Token) :
    Except ParseFailure (Remaining (Option Block) tokens) :=
  match tokens with
  | [] => .ok ⟨none, [], by simp⟩
  | t :: rest =>
    if t.kind = .kwElse then do
      let ⟨body, rest₁, h₁⟩ ← block depth .elseBody rest
      return ⟨some body, rest₁, by simp only [List.length_cons]; omega⟩
    else
      .ok ⟨none, t :: rest, by simp⟩
termination_by (tokens.length, 0)

/-- Reads expressions with commas between them, up to the closing token. -/
def exprList (depth : Depth) (close : TokenKind) (tokens : List Token) :
    Except ParseFailure (Parsed (List Expr) tokens) :=
  match tokens with
  | [] => reject (.unexpected (Token.endOfInput endLine)) endLine
  | t :: rest =>
    if t.kind = close then .ok ⟨[], rest, by simp⟩
    else do
      let ⟨first, rest₁, h₁⟩ ← expr depth Binding.lowest (t :: rest)
      let ⟨others, rest₂, h₂⟩ ← moreExprs depth close rest₁
      return ⟨first :: others, rest₂, by omega⟩
termination_by (tokens.length, 2)

/-- Reads the expressions that follow a first one, up to the closing token. -/
def moreExprs (depth : Depth) (close : TokenKind) (tokens : List Token) :
    Except ParseFailure (Parsed (List Expr) tokens) :=
  match tokens with
  | [] => rejectNext endLine (.listClose close) []
  | t :: rest =>
    if t.kind = .comma then do
      let ⟨next, rest₁, h₁⟩ ← expr depth Binding.lowest rest
      let ⟨others, rest₂, h₂⟩ ← moreExprs depth close rest₁
      return ⟨next :: others, rest₂, by simp only [List.length_cons]; omega⟩
    else do
      let ⟨_, rest₁, h₁⟩ ← expect endLine close (.listClose close) (t :: rest)
      return ⟨[], rest₁, h₁⟩
termination_by (tokens.length, 0)

/-- Reads a block from its opening brace on. -/
def block (depth : Depth) (due : Expectation) (tokens : List Token) :
    Except ParseFailure (Parsed Block tokens) := do
  let ⟨brace, rest₁, h₁⟩ ← expect endLine .leftBrace due tokens
  let ⟨statements, rest₂, h₂⟩ ← blockStatements depth rest₁
  return ⟨.mk statements brace.line, rest₂, by omega⟩
termination_by (tokens.length, 0)

/-- Reads the statements of a block up to its closing brace. -/
def blockStatements (depth : Depth) (tokens : List Token) :
    Except ParseFailure (Parsed (List Stmt) tokens) :=
  match tokens with
  | [] => reject .unterminatedBlock endLine
  | t :: rest =>
    if t.kind = .rightBrace then .ok ⟨[], rest, by simp⟩
    else do
      let ⟨first, rest₁, h₁⟩ ← stmt depth (t :: rest)
      let ⟨others, rest₂, h₂⟩ ← blockStatements depth rest₁
      return ⟨first :: others, rest₂, by omega⟩
termination_by (tokens.length, 4)

/-- Reads a statement with its terminator. -/
def stmt (depth : Depth) (tokens : List Token) : Except ParseFailure (Parsed Stmt tokens) :=
  match tokens with
  | [] => exprStmt depth []
  | t :: rest =>
    match t.kind with
    | .kwVar => do
      let ⟨target, rest₁, h₁⟩ ← expectIdent endLine .varName rest
      let ⟨_, rest₂, h₂⟩ ← expect endLine .assign .varAssign rest₁
      let ⟨value, rest₃, h₃⟩ ← expr depth Binding.lowest rest₂
      let ⟨_, rest₄, h₄⟩ ← terminator endLine false rest₃
      return ⟨.var target value t.line, rest₄, by simp only [List.length_cons]; omega⟩
    | .kwReturn => do
      let ⟨value, rest₁, h₁⟩ ← expr depth Binding.lowest rest
      let ⟨_, rest₂, h₂⟩ ← terminator endLine false rest₁
      return ⟨.ret value t.line, rest₂, by simp only [List.length_cons]; omega⟩
    | _ => exprStmt depth (t :: rest)
termination_by (tokens.length, 3)

/-- Reads an expression that stands as a statement, with its terminator. -/
def exprStmt (depth : Depth) (tokens : List Token) : Except ParseFailure (Parsed Stmt tokens) := do
  let ⟨value, rest₁, h₁⟩ ← expr depth Binding.lowest tokens
  let ⟨_, rest₂, h₂⟩ ← terminator endLine value.isCond rest₁
  return ⟨.expr value (peek endLine tokens).line, rest₂, by omega⟩
termination_by (tokens.length, 2)

end

/-- Reads statements up to the end of the input. -/
def statements (depth : Depth) (tokens : List Token) : Except ParseFailure (List Stmt) :=
  match tokens with
  | [] => .ok []
  | t :: rest => do
    let ⟨first, rest₁, _h₁⟩ ← stmt endLine depth (t :: rest)
    let others ← statements depth rest₁
    return first :: others
termination_by tokens.length
decreasing_by exact _h₁

end Parser

/-- Reads the surface tree of a whole program. -/
def parse (depth : Depth) (source : String) : Except ParseFailure (List Stmt) :=
  let stream := tokenStream source
  Parser.statements stream.endLine depth stream.tokens

end EtherLang.Surface
