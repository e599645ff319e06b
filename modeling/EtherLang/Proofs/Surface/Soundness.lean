import EtherLang.Surface.Parser
import EtherLang.Proofs.Surface.Grammar

/-!
# What is read is derivable

Each function of the parser takes from the head of its tokens exactly the tokens of a derivation of
what it returns. Along with it goes where the reading stops: an expression that was read at a
strength is followed by no continuation that binds more strongly. This is what makes the loop over
continuations sound. After a continuation of some strength the next one is at most as strong, so
the expression so far may always serve as the left operand.

The functions call each other on fewer tokens, or on the same tokens in a fixed order. So each of
them is shown to be sound on a list of tokens if all of them are on shorter lists.
-/

namespace EtherLang.Surface.Parser

open Grammar

/-- A sequence of two computations succeeds if both do. -/
theorem bind_eq_ok {ε α β : Type} {x : Except ε α} {f : α → Except ε β} {b : β}
    (h : x >>= f = .ok b) : ∃ a, x = .ok a ∧ f a = .ok b := by
  cases x with
  | error e => cases h
  | ok a => exact ⟨a, rfl, h⟩

/-- The next token does not continue an expression more strongly than `strength`. -/
def Stops (strength : Nat) (rest : List Token) : Prop :=
  ∀ t ∈ rest.head?, ∀ c, t.kind.continuation? = some c → c.binding ≤ strength

/-- Every reading stops at the end of the tokens. -/
theorem stops_nil (strength : Nat) : Stops strength [] :=
  nofun

/-- No continuation binds more strongly than a trailer. -/
theorem binding_le_trailer (c : Continuation) : c.binding ≤ Binding.trailer := by
  cases c with
  | binary op => cases op <;> decide
  | _ => decide

/-- Every continuation binds more strongly than nothing at all. -/
theorem lowest_lt_binding (c : Continuation) : Binding.lowest < c.binding := by
  cases c with
  | binary op => cases op <;> decide
  | _ => decide

/-- The tokens without a continuation are those that continue no expression. -/
theorem continuation?_eq_none_iff {kind : TokenKind} :
    kind.continuation? = none ↔ continuesExpr kind = false := by
  cases kind <;> decide

/-- A token before which even the weakest reading stops continues nothing. -/
theorem Stops.continuesExpr_eq_false {rest : List Token} (h : Stops Binding.lowest rest) {t : Token}
    (ht : rest.head? = some t) : continuesExpr t.kind = false := by
  rw [← continuation?_eq_none_iff]
  cases hc : t.kind.continuation? with
  | none => rfl
  | some c => exact absurd (h t ht c hc) (Nat.not_le.mpr (lowest_lt_binding c))

/-- Behind a primary expression anything may follow. -/
theorem stops_primary (rest : List Token) : Stops Stratum.primary.binding rest :=
  fun _ _ c _ => Nat.le_trans (binding_le_trailer c) (by decide)

/-- Behind a trailer anything may follow. -/
theorem stops_trailer (rest : List Token) : Stops Stratum.trailer.binding rest :=
  fun _ _ c _ => binding_le_trailer c

/-- The stratum of the expressions that are read at a strength. -/
def stratumAbove : Nat → Stratum
  | 0 => .arrow
  | 1 => .equality
  | 2 => .sum
  | 3 => .product
  | _ => .unary

/-- Every stronger continuation leaves an expression in the stratum read at a strength. -/
theorem binding_stratumAbove_le {strength binding : Nat} (h : strength < binding) :
    (stratumAbove strength).binding ≤ binding := by
  have hle : (stratumAbove strength).binding ≤ strength + 1 := by
    match strength with
    | 0 | 1 | 2 | 3 => decide
    | n + 4 =>
      change 5 ≤ n + 4 + 1
      omega
  omega

/-- Whatever the strength, a unary expression is in the stratum that is read. -/
theorem binding_stratumAbove_le_unary (strength : Nat) :
    (stratumAbove strength).binding ≤ Binding.unary := by
  unfold stratumAbove
  split <;> decide

/-- The stratum that a continuation puts an expression into. -/
def stratumOfContinuation : Continuation → Stratum
  | .call | .index => .trailer
  | .arrow => .arrow
  | .binary op => stratumOf op

/-- A continuation binds as its stratum does. -/
theorem binding_stratumOfContinuation (c : Continuation) :
    (stratumOfContinuation c).binding = c.binding := by
  cases c with
  | binary op => cases op <;> rfl
  | _ => rfl

/-- The right operand of an operator is read in the next tighter stratum. -/
theorem stratumAbove_binding (op : BinaryOp) :
    stratumAbove op.binding = (stratumOf op).tighter := by
  cases op <;> rfl

/-- A token that opens an operator is the operator's own token. -/
theorem kind_of_continuation? {kind : TokenKind} {c : Continuation}
    (h : kind.continuation? = some c) :
    match c with
    | .call => kind = .leftParen
    | .index => kind = .leftBracket
    | .arrow => kind = .arrow
    | .binary op => kind = op.tokenKind := by
  cases kind <;> simp only [TokenKind.continuation?, Option.some.injEq, reduceCtorEq] at h <;>
    subst h <;> rfl

variable {endLine : Nat}

/-- A token that is due is read by itself. -/
theorem expect_sound {tokens rest : List Token} {kind : TokenKind}
    {due : Expectation} {t : Token} {hlt : rest.length < tokens.length}
    (h : expect endLine kind due tokens = .ok ⟨t, rest, hlt⟩) :
    tokens = t :: rest ∧ t.kind = kind := by
  unfold expect at h
  split at h
  · cases h
  · split at h
    · cases h
      exact ⟨rfl, ‹_›⟩
    · cases h

/-- A name that is due is read by itself. -/
theorem expectIdent_sound {tokens rest : List Token} {due : Expectation} {name : Ident}
    {hlt : rest.length < tokens.length}
    (h : expectIdent endLine due tokens = .ok ⟨name, rest, hlt⟩) :
    ∃ t : Token, tokens = t :: rest ∧ t.kind = .ident ∧ name = ⟨t.text, t.line⟩ := by
  obtain ⟨⟨t, rest₁, hlt₁⟩, ht, h⟩ := bind_eq_ok h
  cases h
  obtain ⟨htokens, hkind⟩ := expect_sound ht
  exact ⟨t, htokens, hkind, rfl⟩

/-- The parameters behind a first one are names after commas, up to a bar. -/
theorem moreParams_sound {tokens rest : List Token} {names : List Ident}
    {hlt : rest.length < tokens.length} {first : Token}
    (hfirst : first.kind = .ident) (h : moreParams endLine tokens = .ok ⟨names, rest, hlt⟩) :
    ∃ ts close, tokens = ts ++ close :: rest ∧ close.kind = .bar ∧
      Names (first :: ts) (⟨first.text, first.line⟩ :: names) := by
  match tokens with
  | [] =>
    rw [moreParams] at h
    cases h
  | t :: us =>
    rw [moreParams] at h
    split at h
    · next hcomma =>
      obtain ⟨⟨name, rest₁, hlt₁⟩, hname, h⟩ := bind_eq_ok h
      obtain ⟨⟨others, rest₂, hlt₂⟩, hothers, h⟩ := bind_eq_ok h
      cases h
      obtain ⟨u, rfl, hu, rfl⟩ := expectIdent_sound hname
      obtain ⟨ts, close, rfl, hclose, hnames⟩ := moreParams_sound hu hothers
      exact ⟨t :: u :: ts, close, rfl, hclose, .cons hfirst hcomma hnames⟩
    · next hbar =>
      cases h
      exact ⟨[], t, rfl, hbar, .last hfirst⟩
    · cases h
termination_by tokens.length
decreasing_by simp only [List.length_cons]; omega

/-- What is read as parameters are the names up to a bar. -/
theorem params_sound {tokens rest : List Token} {names : List Ident}
    {hlt : rest.length < tokens.length}
    (h : params endLine tokens = .ok ⟨names, rest, hlt⟩) :
    ∃ ts close, tokens = ts ++ close :: rest ∧ close.kind = .bar ∧ Params ts names := by
  unfold params at h
  split at h
  · cases h
  · next t us =>
    split at h
    · next hbar =>
      cases h
      exact ⟨[], t, rfl, hbar, .none⟩
    · obtain ⟨⟨name, rest₁, hlt₁⟩, hname, h⟩ := bind_eq_ok h
      obtain ⟨⟨others, rest₂, hlt₂⟩, hothers, h⟩ := bind_eq_ok h
      cases h
      obtain ⟨u, hus, hu, rfl⟩ := expectIdent_sound hname
      obtain ⟨ts, close, rfl, hclose, hnames⟩ := moreParams_sound hu hothers
      exact ⟨u :: ts, close, hus, hclose, .some hnames⟩

/-- A numeral that is read denotes an integer of the language. -/
theorem literal_sound {t : Token} {e : Expr} (h : literal t = .ok e) :
    Text.ofAsciiDigits t.text ≤ Integer.maxValue ∧ e = .integer t.text t.line := by
  unfold literal at h
  split at h
  · cases h
  · split at h
    · cases h
      exact ⟨‹_›, rfl⟩
    · cases h

/-- The end of a statement is a semicolon, or nothing behind a closed statement and before a
closing brace or the end. -/
theorem terminator_sound {tokens rest : List Token} {closed : Bool}
    {hle : rest.length ≤ tokens.length}
    (h : terminator endLine closed tokens = .ok ⟨(), rest, hle⟩) :
    (∃ t : Token, t.kind = .semicolon ∧ tokens = t :: rest) ∨
      tokens = rest ∧ (closed = true ∨ ∀ t ∈ rest.head?, t.kind = .rightBrace) := by
  unfold terminator at h
  split at h
  · cases h
    exact .inr ⟨rfl, .inr (by simp)⟩
  · next t us =>
    split at h
    · next hsemicolon =>
      cases h
      exact .inl ⟨t, hsemicolon, rfl⟩
    · split at h
      · next hend =>
        cases h
        rw [Bool.or_eq_true, decide_eq_true_eq] at hend
        refine .inr ⟨rfl, hend.imp_right fun hbrace u hu => ?_⟩
        cases hu
        exact hbrace
      · cases h

/-- One statement was read: its own tokens, and how the statement ends. -/
inductive Terminated (tokens : List Token) (s : Stmt) (rest : List Token) : Prop
  | semicolon {ts : List Token} {t : Token} : Statement ts s → t.kind = .semicolon →
    tokens = ts ++ t :: rest → Terminated tokens s rest
  | last {ts : List Token} : Statement ts s → (∀ t ∈ rest.head?, t.kind = .rightBrace) →
    tokens = ts ++ rest → Terminated tokens s rest
  | closed {ts : List Token} : Statement ts s → s.isClosed = true → Stops Binding.lowest rest →
    tokens = ts ++ rest → Terminated tokens s rest

/-- A statement that was read extends the statements behind it. -/
theorem Terminated.statements {tokens ts rest tail : List Token} {s : Stmt} {ss : List Stmt}
    (h : Terminated tokens s rest) (hss : Statements ts ss) (hrest : rest = ts ++ tail) :
    ∃ us, tokens = us ++ tail ∧ Statements us (s :: ss) := by
  subst hrest
  cases h with
  | semicolon hs ht htokens =>
    subst htokens
    exact ⟨_, by simp, .cons hs ht hss⟩
  | last hs hlast htokens =>
    subst htokens
    obtain ⟨rfl, rfl⟩ | ⟨t, us, rfl, ht⟩ := hss.exists_head
    · exact ⟨_, rfl, .last hs⟩
    · rw [hlast t rfl] at ht
      cases ht
  | closed hs hclosed hstops htokens =>
    subst htokens
    obtain ⟨rfl, rfl⟩ | ⟨t, us, rfl, _⟩ := hss.exists_head
    · exact ⟨_, rfl, .last hs⟩
    · exact ⟨_, by simp, .closed hs hclosed (hstops.continuesExpr_eq_false rfl) hss⟩

/-- A statement that no brace of its own closes ends in a semicolon or as the last of its list. -/
theorem Terminated.of_terminator {tokens us rest ts : List Token} {s : Stmt}
    {hle : rest.length ≤ us.length} (hs : Statement ts s)
    (h : terminator endLine false us = .ok ⟨(), rest, hle⟩) (htokens : tokens = ts ++ us) :
    Terminated tokens s rest := by
  obtain ⟨t, ht, rfl⟩ | ⟨rfl, hclosed | hlast⟩ := terminator_sound h
  · exact .semicolon hs ht htokens
  · cases hclosed
  · exact .last hs hlast htokens

section Specifications

variable (endLine) (tokens : List Token)

/-- An expression that is read at a strength is one of the stratum above that strength. -/
def ExprSound : Prop :=
  ∀ {depth : Depth} {strength : Nat} {e : Expr} {rest : List Token}
    {hlt : rest.length < tokens.length},
    expr endLine depth strength tokens = .ok ⟨e, rest, hlt⟩ →
    ∃ ts, tokens = ts ++ rest ∧ Derives (stratumAbove strength) ts e ∧ Stops strength rest

/-- The loop over continuations keeps the expression so far derivable. -/
def ContinuationsSound : Prop :=
  ∀ {depth : Depth} {strength : Nat} {ls rest : List Token} {left e : Expr} {s : Stratum}
    {hle : rest.length ≤ tokens.length},
    continuations endLine depth strength left tokens = .ok ⟨e, rest, hle⟩ →
    Derives s ls left → (stratumAbove strength).binding ≤ s.binding → Stops s.binding tokens →
    ∃ ts, tokens = ts ++ rest ∧ Derives (stratumAbove strength) (ls ++ ts) e ∧ Stops strength rest

/-- One continuation makes an expression of its own stratum. -/
def ContinuationSound : Prop :=
  ∀ {depth : Depth} {ls rest : List Token} {left e : Expr} {c : Continuation} {t : Token}
    {hlt : rest.length < tokens.length},
    continuation endLine depth left c t.line tokens = .ok ⟨e, rest, hlt⟩ →
    t.kind.continuation? = some c → Derives (stratumOfContinuation c) ls left →
    ∃ ts, tokens = ts ++ rest ∧ Derives (stratumOfContinuation c) (ls ++ t :: ts) e ∧
      Stops (stratumOfContinuation c).binding rest

/-- An operand holds together at least as strongly as a unary operator with its operand. -/
def OperandSound : Prop :=
  ∀ {depth : Depth} {e : Expr} {rest : List Token} {hlt : rest.length < tokens.length},
    operand endLine depth tokens = .ok ⟨e, rest, hlt⟩ →
    ∃ ts s, tokens = ts ++ rest ∧ Derives s ts e ∧ Binding.unary ≤ s.binding ∧ Stops s.binding rest

/-- The `else` part of an `if` is a block behind `else`, or nothing. -/
def AlternativeSound : Prop :=
  ∀ {depth : Depth} {part : Option Block} {rest : List Token}
    {hle : rest.length ≤ tokens.length},
    alternative endLine depth tokens = .ok ⟨part, rest, hle⟩ →
    (part = none ∧ tokens = rest) ∨
      ∃ t ts body, part = some body ∧ tokens = t :: (ts ++ rest) ∧ t.kind = .kwElse ∧
        Braces ts body

/-- What is read up to a closing token are expressions with commas between them. -/
def ExprListSound : Prop :=
  ∀ {depth : Depth} {close : TokenKind} {es : List Expr} {rest : List Token}
    {hlt : rest.length < tokens.length},
    exprList endLine depth close tokens = .ok ⟨es, rest, hlt⟩ →
    ∃ ts u, tokens = ts ++ u :: rest ∧ u.kind = close ∧ Args ts es

/-- The expressions behind a first one stand after commas. -/
def MoreExprsSound : Prop :=
  ∀ {depth : Depth} {close : TokenKind} {ls rest : List Token} {first : Expr} {es : List Expr}
    {hlt : rest.length < tokens.length},
    moreExprs endLine depth close tokens = .ok ⟨es, rest, hlt⟩ → Derives .arrow ls first →
    ∃ ts u, tokens = ts ++ u :: rest ∧ u.kind = close ∧ Items (ls ++ ts) (first :: es)

/-- A block that is read is a list of statements between braces. -/
def BlockSound : Prop :=
  ∀ {depth : Depth} {due : Expectation} {body : Block} {rest : List Token}
    {hlt : rest.length < tokens.length},
    block endLine depth due tokens = .ok ⟨body, rest, hlt⟩ →
    ∃ ts, tokens = ts ++ rest ∧ Braces ts body

/-- The statements of a block reach up to its closing brace. -/
def BlockStatementsSound : Prop :=
  ∀ {depth : Depth} {ss : List Stmt} {rest : List Token} {hlt : rest.length < tokens.length},
    blockStatements endLine depth tokens = .ok ⟨ss, rest, hlt⟩ →
    ∃ ts close, tokens = ts ++ close :: rest ∧ close.kind = .rightBrace ∧ Statements ts ss

/-- A statement that is read is one of the grammar, with the end that it needs. -/
def StmtSound : Prop :=
  ∀ {depth : Depth} {s : Stmt} {rest : List Token} {hlt : rest.length < tokens.length},
    stmt endLine depth tokens = .ok ⟨s, rest, hlt⟩ → Terminated tokens s rest

/-- What the functions of the parser read from the tokens is derivable. -/
structure Sound : Prop where
  expr : ExprSound endLine tokens
  continuations : ContinuationsSound endLine tokens
  continuation : ContinuationSound endLine tokens
  alternative : AlternativeSound endLine tokens
  exprList : ExprListSound endLine tokens
  moreExprs : MoreExprsSound endLine tokens
  block : BlockSound endLine tokens
  blockStatements : BlockStatementsSound endLine tokens
  stmt : StmtSound endLine tokens

/-- What the functions of the parser read from fewer tokens is derivable. -/
def SoundBelow : Prop :=
  ∀ us : List Token, us.length < tokens.length → Sound endLine us

end Specifications

section Steps

variable {tokens : List Token}

/-- Operands are sound where fewer tokens are. -/
theorem operand_sound (below : SoundBelow endLine tokens) : OperandSound endLine tokens := by
  intro depth e rest hlt h
  cases tokens with
  | nil =>
    rw [operand] at h
    cases h
  | cons t us =>
    have next : Sound endLine us := below us (Nat.lt_succ_self _)
    -- All operands but the unary operators are primary expressions.
    suffices hcases : (∃ ts, t :: us = ts ++ rest ∧ Derives .primary ts e) ∨
        ∃ ts, t :: us = ts ++ rest ∧ Derives .unary ts e ∧ Stops Binding.unary rest by
      obtain ⟨ts, hts, he⟩ | ⟨ts, hts, he, hstops⟩ := hcases
      · exact ⟨ts, .primary, hts, he, by decide, stops_primary rest⟩
      · exact ⟨ts, .unary, hts, he, Nat.le_refl _, hstops⟩
    rw [operand] at h
    split at h
    · next hkind =>
      obtain ⟨value, hvalue, h⟩ := bind_eq_ok h
      cases h
      obtain ⟨hrange, rfl⟩ := literal_sound hvalue
      exact .inl ⟨[t], rfl, .integer hkind hrange⟩
    · next hkind =>
      cases h
      exact .inl ⟨[t], rfl, .kwTrue hkind⟩
    · next hkind =>
      cases h
      exact .inl ⟨[t], rfl, .kwFalse hkind⟩
    · next hkind =>
      cases h
      exact .inl ⟨[t], rfl, .ident hkind⟩
    · next hkind =>
      obtain ⟨⟨inner, rest₁, hlt₁⟩, hinner, h⟩ := bind_eq_ok h
      obtain ⟨⟨close, rest₂, hlt₂⟩, hclose, h⟩ := bind_eq_ok h
      cases h
      obtain ⟨ts, rfl, dinner, _⟩ := next.expr hinner
      obtain ⟨rfl, kclose⟩ := expect_sound hclose
      exact .inl ⟨t :: (ts ++ [close]), by simp, .group hkind dinner kclose⟩
    · next hkind =>
      obtain ⟨⟨inner, rest₁, hlt₁⟩, hinner, h⟩ := bind_eq_ok h
      cases h
      obtain ⟨ts, rfl, dinner, hstops⟩ := next.expr hinner
      exact .inr ⟨t :: ts, rfl, .unary .negate hkind dinner, hstops⟩
    · next hkind =>
      obtain ⟨⟨inner, rest₁, hlt₁⟩, hinner, h⟩ := bind_eq_ok h
      cases h
      obtain ⟨ts, rfl, dinner, hstops⟩ := next.expr hinner
      exact .inr ⟨t :: ts, rfl, .unary .not hkind dinner, hstops⟩
    · next hkind =>
      obtain ⟨⟨names, rest₁, hlt₁⟩, hnames, h⟩ := bind_eq_ok h
      obtain ⟨⟨body, rest₂, hlt₂⟩, hbody, h⟩ := bind_eq_ok h
      cases h
      obtain ⟨bs, rfl, dbody⟩ := (below rest₁ (Nat.lt_succ_of_lt hlt₁)).block hbody
      obtain ⟨ts, close, rfl, hclose, dnames⟩ := params_sound hnames
      exact .inl ⟨t :: (ts ++ close :: bs), by simp, .function hkind dnames hclose dbody⟩
    · next hkind =>
      obtain ⟨⟨elements, rest₁, hlt₁⟩, helements, h⟩ := bind_eq_ok h
      cases h
      obtain ⟨ts, close, rfl, hclose, delements⟩ := next.exprList helements
      exact .inl ⟨t :: (ts ++ [close]), by simp, .array hkind delements hclose⟩
    · next hkind =>
      obtain ⟨⟨condition, rest₁, hlt₁⟩, hcondition, h⟩ := bind_eq_ok h
      obtain ⟨⟨consequence, rest₂, hlt₂⟩, hconsequence, h⟩ := bind_eq_ok h
      obtain ⟨⟨alternative, rest₃, hle₃⟩, halternative, h⟩ := bind_eq_ok h
      cases h
      have hbelow₁ : Sound endLine rest₁ := below rest₁ (Nat.lt_succ_of_lt hlt₁)
      have hbelow₂ : Sound endLine rest₂ :=
        below rest₂ (Nat.lt_succ_of_lt (Nat.lt_trans hlt₂ hlt₁))
      obtain ⟨cs, rfl, dcondition, _⟩ := next.expr hcondition
      obtain ⟨bs, rfl, dconsequence⟩ := hbelow₁.block hconsequence
      obtain ⟨rfl, rfl⟩ | ⟨u, ds, body, rfl, rfl, hu, hbody⟩ := hbelow₂.alternative halternative
      · exact .inl ⟨t :: (cs ++ bs), by simp, .cond hkind dcondition dconsequence⟩
      · exact .inl ⟨t :: (cs ++ (bs ++ u :: ds)), by simp,
          .condElse hkind dcondition dconsequence hu hbody⟩
    · cases h
    · cases h

/-- Expressions are sound where fewer tokens are. -/
theorem expr_sound (below : SoundBelow endLine tokens) : ExprSound endLine tokens := by
  intro depth strength e rest hlt h
  rw [expr] at h
  split at h
  · cases h
  · obtain ⟨⟨left, rest₁, hlt₁⟩, hleft, h⟩ := bind_eq_ok h
    obtain ⟨⟨whole, rest₂, hle₂⟩, hwhole, h⟩ := bind_eq_ok h
    cases h
    obtain ⟨ts, s, htokens, hs, hunary, hstops⟩ := operand_sound below hleft
    have habove := Nat.le_trans (binding_stratumAbove_le_unary strength) hunary
    obtain ⟨us, rfl, dwhole, hstops⟩ := (below rest₁ hlt₁).continuations hwhole hs habove hstops
    exact ⟨ts ++ us, by rw [htokens, List.append_assoc], dwhole, hstops⟩

/-- The loop over continuations is sound where fewer tokens are. -/
theorem continuations_sound (below : SoundBelow endLine tokens) :
    ContinuationsSound endLine tokens := by
  intro depth strength ls rest left e s hle h hleft habove hnext
  cases tokens with
  | nil =>
    rw [continuations] at h
    cases h
    exact ⟨[], rfl, by simpa using hleft.of_binding_le habove, stops_nil strength⟩
  | cons t us =>
    rw [continuations] at h
    split at h
    · next hnone =>
      cases h
      refine ⟨[], rfl, by simpa using hleft.of_binding_le habove, ?_⟩
      intro u hu c hc
      cases hu
      rw [hnone] at hc
      cases hc
    · next c hc =>
      split at h
      · next hstronger =>
        obtain ⟨⟨longer, rest₁, hlt₁⟩, hlonger, h⟩ := bind_eq_ok h
        obtain ⟨⟨whole, rest₂, hle₂⟩, hwhole, h⟩ := bind_eq_ok h
        cases h
        -- The expression so far is the left operand of the continuation.
        have hoperand : Derives (stratumOfContinuation c) ls left := by
          refine hleft.of_binding_le ?_
          rw [binding_stratumOfContinuation]
          exact hnext t rfl c hc
        have habove' : (stratumAbove strength).binding ≤ (stratumOfContinuation c).binding := by
          rw [binding_stratumOfContinuation]
          exact binding_stratumAbove_le hstronger
        have hbelow₁ : Sound endLine rest₁ := below rest₁ (Nat.lt_succ_of_lt hlt₁)
        obtain ⟨ts, rfl, dlonger, hstops⟩ :=
          (below us (Nat.lt_succ_self _)).continuation hlonger hc hoperand
        obtain ⟨vs, rfl, dwhole, hstops⟩ := hbelow₁.continuations hwhole dlonger habove' hstops
        exact ⟨t :: (ts ++ vs), by simp, by simpa using dwhole, hstops⟩
      · next hweaker =>
        cases h
        refine ⟨[], rfl, by simpa using hleft.of_binding_le habove, ?_⟩
        intro u hu c' hc'
        cases hu
        rw [hc] at hc'
        cases hc'
        exact Nat.le_of_not_lt hweaker

/-- Lists of expressions are sound where fewer tokens are. -/
theorem exprList_sound (below : SoundBelow endLine tokens) : ExprListSound endLine tokens := by
  intro depth close es rest hlt h
  cases tokens with
  | nil =>
    rw [exprList] at h
    cases h
  | cons t us =>
    rw [exprList] at h
    split at h
    · next hclose =>
      cases h
      exact ⟨[], t, rfl, hclose, .none⟩
    · obtain ⟨⟨first, rest₁, hlt₁⟩, hfirst, h⟩ := bind_eq_ok h
      obtain ⟨⟨others, rest₂, hlt₂⟩, hothers, h⟩ := bind_eq_ok h
      cases h
      obtain ⟨ts, hts, dfirst, _⟩ := expr_sound below hfirst
      obtain ⟨vs, u, rfl, hu, hitems⟩ := (below rest₁ hlt₁).moreExprs hothers dfirst
      exact ⟨ts ++ vs, u, by rw [hts, List.append_assoc], hu, .some hitems⟩

/-- One continuation is sound where fewer tokens are. -/
theorem continuation_sound (below : SoundBelow endLine tokens) :
    ContinuationSound endLine tokens := by
  intro depth ls rest left e c t hlt h ht hleft
  have hkind := kind_of_continuation? ht
  cases c with
  | call =>
    rw [continuation] at h
    obtain ⟨⟨args, rest₁, hlt₁⟩, hargs, h⟩ := bind_eq_ok h
    cases h
    obtain ⟨ts, close, rfl, hclose, dargs⟩ := exprList_sound below hargs
    exact ⟨ts ++ [close], by simp, .call hleft hkind dargs hclose, stops_trailer _⟩
  | index =>
    rw [continuation] at h
    obtain ⟨⟨position, rest₁, hlt₁⟩, hposition, h⟩ := bind_eq_ok h
    obtain ⟨⟨close, rest₂, hlt₂⟩, hclose, h⟩ := bind_eq_ok h
    cases h
    obtain ⟨ts, rfl, dposition, _⟩ := expr_sound below hposition
    obtain ⟨rfl, kclose⟩ := expect_sound hclose
    exact ⟨ts ++ [close], by simp, .index hleft hkind dposition kclose, stops_trailer _⟩
  | arrow =>
    rw [continuation] at h
    obtain ⟨⟨target, rest₁, hlt₁⟩, htarget, h⟩ := bind_eq_ok h
    cases h
    obtain ⟨ts, rfl, dtarget, hstops⟩ := expr_sound below htarget
    exact ⟨ts, rfl, .arrow hleft hkind dtarget, hstops⟩
  | binary op =>
    rw [continuation] at h
    obtain ⟨⟨right, rest₁, hlt₁⟩, hright, h⟩ := bind_eq_ok h
    cases h
    obtain ⟨ts, rfl, dright, hstops⟩ := expr_sound below hright
    rw [stratumAbove_binding] at dright
    rw [binding_stratumOfContinuation]
    exact ⟨ts, rfl, .binary op hleft hkind dright, hstops⟩

/-- The `else` part of an `if` is sound where fewer tokens are. -/
theorem alternative_sound (below : SoundBelow endLine tokens) :
    AlternativeSound endLine tokens := by
  intro depth part rest hle h
  cases tokens with
  | nil =>
    rw [alternative] at h
    cases h
    exact .inl ⟨rfl, rfl⟩
  | cons t us =>
    rw [alternative] at h
    split at h
    · next helse =>
      obtain ⟨⟨body, rest₁, hlt₁⟩, hbody, h⟩ := bind_eq_ok h
      cases h
      obtain ⟨ts, rfl, dbody⟩ := (below us (Nat.lt_succ_self _)).block hbody
      exact .inr ⟨t, ts, body, rfl, rfl, helse, dbody⟩
    · cases h
      exact .inl ⟨rfl, rfl⟩

/-- Further expressions of a list are sound where fewer tokens are. -/
theorem moreExprs_sound (below : SoundBelow endLine tokens) : MoreExprsSound endLine tokens := by
  intro depth close ls rest first es hlt h hfirst
  cases tokens with
  | nil =>
    rw [moreExprs] at h
    cases h
  | cons t us =>
    rw [moreExprs] at h
    split at h
    · next hcomma =>
      obtain ⟨⟨next, rest₁, hlt₁⟩, hnext, h⟩ := bind_eq_ok h
      obtain ⟨⟨others, rest₂, hlt₂⟩, hothers, h⟩ := bind_eq_ok h
      cases h
      have hbelow₁ : Sound endLine rest₁ := below rest₁ (Nat.lt_succ_of_lt hlt₁)
      obtain ⟨ts, rfl, dnext, _⟩ := (below us (Nat.lt_succ_self _)).expr hnext
      obtain ⟨vs, u, rfl, hu, hitems⟩ := hbelow₁.moreExprs hothers dnext
      exact ⟨t :: (ts ++ vs), u, by simp, hu, .cons hfirst hcomma hitems⟩
    · obtain ⟨⟨u, rest₁, hlt₁⟩, hu, h⟩ := bind_eq_ok h
      cases h
      obtain ⟨hus, ku⟩ := expect_sound hu
      exact ⟨[], u, hus, ku, by simpa using .last hfirst⟩

/-- Blocks are sound where fewer tokens are. -/
theorem block_sound (below : SoundBelow endLine tokens) : BlockSound endLine tokens := by
  intro depth due body rest hlt h
  rw [block] at h
  obtain ⟨⟨brace, rest₁, hlt₁⟩, hbrace, h⟩ := bind_eq_ok h
  obtain ⟨⟨statements, rest₂, hlt₂⟩, hstatements, h⟩ := bind_eq_ok h
  cases h
  obtain ⟨ts, close, rfl, hclose, dstatements⟩ := (below rest₁ hlt₁).blockStatements hstatements
  obtain ⟨rfl, kbrace⟩ := expect_sound hbrace
  exact ⟨brace :: (ts ++ [close]), by simp, .mk kbrace dstatements hclose⟩

/-- Expressions that stand as statements are sound where fewer tokens are. They need no semicolon
if they are an `if`. -/
theorem exprStmt_sound (below : SoundBelow endLine tokens) {depth : Depth} {s : Stmt}
    {rest : List Token} {hlt : rest.length < tokens.length}
    (h : exprStmt endLine depth tokens = .ok ⟨s, rest, hlt⟩) : Terminated tokens s rest := by
  rw [exprStmt] at h
  obtain ⟨⟨value, rest₁, hlt₁⟩, hvalue, h⟩ := bind_eq_ok h
  obtain ⟨⟨_, rest₂, hle₂⟩, hend, h⟩ := bind_eq_ok h
  cases h
  obtain ⟨ts, rfl, dvalue, hstops⟩ := expr_sound below hvalue
  obtain ⟨t, us, rfl, _⟩ := dvalue.exists_head
  have hs : Statement (t :: us) (.expr value t.line) := .expr dvalue
  obtain ⟨u, hu, rfl⟩ | ⟨rfl, hcond | hlast⟩ := terminator_sound hend
  · exact .semicolon hs hu rfl
  · exact .closed hs hcond hstops rfl
  · exact .last hs hlast rfl

/-- Statements are sound where fewer tokens are. -/
theorem stmt_sound (below : SoundBelow endLine tokens) : StmtSound endLine tokens := by
  intro depth s rest hlt h
  cases tokens with
  | nil =>
    rw [stmt] at h
    exact exprStmt_sound below h
  | cons t us =>
    rw [stmt] at h
    split at h
    · next hkind =>
      obtain ⟨⟨target, rest₁, hlt₁⟩, htarget, h⟩ := bind_eq_ok h
      obtain ⟨⟨equals, rest₂, hlt₂⟩, hequals, h⟩ := bind_eq_ok h
      obtain ⟨⟨value, rest₃, hlt₃⟩, hvalue, h⟩ := bind_eq_ok h
      obtain ⟨⟨_, rest₄, hle₄⟩, hend, h⟩ := bind_eq_ok h
      cases h
      have hbelow₂ : Sound endLine rest₂ :=
        below rest₂ (Nat.lt_succ_of_lt (Nat.lt_trans hlt₂ hlt₁))
      obtain ⟨ts, rfl, dvalue, _⟩ := hbelow₂.expr hvalue
      obtain ⟨name, rfl, hname, rfl⟩ := expectIdent_sound htarget
      obtain ⟨rfl, kequals⟩ := expect_sound hequals
      exact .of_terminator (.var hkind hname kequals dvalue) hend rfl
    · next hkind =>
      obtain ⟨⟨value, rest₁, hlt₁⟩, hvalue, h⟩ := bind_eq_ok h
      obtain ⟨⟨_, rest₂, hle₂⟩, hend, h⟩ := bind_eq_ok h
      cases h
      obtain ⟨ts, rfl, dvalue, _⟩ := (below us (Nat.lt_succ_self _)).expr hvalue
      exact .of_terminator (.ret hkind dvalue) hend rfl
    · exact exprStmt_sound below h

/-- The statements of a block are sound where fewer tokens are. -/
theorem blockStatements_sound (below : SoundBelow endLine tokens) :
    BlockStatementsSound endLine tokens := by
  intro depth ss rest hlt h
  cases tokens with
  | nil =>
    rw [blockStatements] at h
    cases h
  | cons t us =>
    rw [blockStatements] at h
    split at h
    · next hbrace =>
      cases h
      exact ⟨[], t, rfl, hbrace, .nil⟩
    · obtain ⟨⟨first, rest₁, hlt₁⟩, hfirst, h⟩ := bind_eq_ok h
      obtain ⟨⟨others, rest₂, hlt₂⟩, hothers, h⟩ := bind_eq_ok h
      cases h
      have dfirst := stmt_sound below hfirst
      obtain ⟨vs, close, hvs, hclose, dothers⟩ := (below rest₁ hlt₁).blockStatements hothers
      obtain ⟨ts, hts, hss⟩ := dfirst.statements dothers hvs
      exact ⟨ts, close, hts, hclose, hss⟩

end Steps

/-- What the functions of the parser read from any tokens is derivable. -/
theorem sound (tokens : List Token) : Sound endLine tokens := by
  have below : SoundBelow endLine tokens := fun us _ => sound us
  exact ⟨expr_sound below, continuations_sound below, continuation_sound below,
    alternative_sound below, exprList_sound below, moreExprs_sound below, block_sound below,
    blockStatements_sound below, stmt_sound below⟩
termination_by tokens.length

/-- The statements that are read up to the end of the input are statements of the grammar. -/
theorem statements_sound {depth : Depth} {tokens : List Token} {ss : List Stmt}
    (h : statements endLine depth tokens = .ok ss) : Statements tokens ss := by
  match tokens with
  | [] =>
    rw [statements] at h
    cases h
    exact .nil
  | t :: us =>
    rw [statements] at h
    obtain ⟨⟨first, rest₁, hlt₁⟩, hfirst, h⟩ := bind_eq_ok h
    obtain ⟨others, hothers, h⟩ := bind_eq_ok h
    cases h
    have dfirst := (sound (t :: us)).stmt hfirst
    obtain ⟨ts, hts, hss⟩ := dfirst.statements (statements_sound hothers)
      (List.append_nil rest₁).symm
    rw [hts, List.append_nil]
    exact hss
termination_by tokens.length
decreasing_by exact hlt₁

end EtherLang.Surface.Parser
