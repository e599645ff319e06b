import EtherLang.Proofs.Surface.Recursion

/-!
# Progress of the parser

What a function of the parser reads ends on a token of the text, which is the last token of the
construct that was read. The functions that repeat something take at least one token each time, so
they repeat it no more often than there are tokens, and in the end they stop where they stand or
behind a closing token. So all functions of the parser make progress in the text, and none of them
goes beyond its end.
-/

namespace EtherLang.Surface

namespace Grammar

/-- The token is not the end of the input. -/
def Inside (t : Token) : Prop :=
  t.kind ≠ .endOfInput

/-- The operators are tokens of the text. -/
theorem inside_of_tokenKind {t : Token} {op : BinaryOp} (h : t.kind = op.tokenKind) : Inside t := by
  rw [Inside, h]
  cases op <;> decide

/-- The operators with one operand are tokens of the text. -/
theorem inside_of_unary {t : Token} {op : UnaryOp} (h : t.kind = op.tokenKind) : Inside t := by
  rw [Inside, h]
  cases op <;> decide

/-- Names stand before the end of the input. -/
theorem Names.inside {ts : List Token} {names : List Ident} (h : Names ts names) :
    Throughout Inside ts := by
  induction h with
  | last hname => simp [Inside, hname]
  | cons hname hcomma _ ih => simp [Inside, hname, hcomma, ih]

/-- Parameters stand before the end of the input. -/
theorem Params.inside {ts : List Token} {names : List Ident} (h : Params ts names) :
    Throughout Inside ts := by
  cases h with
  | none => exact throughout_nil
  | some hnames => exact hnames.inside

mutual

/-- An expression stands before the end of the input. -/
theorem Derives.inside {s : Stratum} {ts : List Token} {e : Expr} (h : Derives s ts e) :
    Throughout Inside ts := by
  match h with
  | .arrow hl ht hr => simp [hl.inside, hr.inside, Inside, ht]
  | .binary op hl ht hr => simp [hl.inside, hr.inside, inside_of_tokenKind ht]
  | .unary op ht he => simp [he.inside, inside_of_unary ht]
  | .call hc ht hargs hclose => simp [hc.inside, hargs.inside, Inside, ht, hclose]
  | .index hc ht hi hclose => simp [hc.inside, hi.inside, Inside, ht, hclose]
  | .integer ht _ | .kwTrue ht | .kwFalse ht | .ident ht => simp [Inside, ht]
  | .group ht he hclose => simp [he.inside, Inside, ht, hclose]
  | .function ht hps hclose hbs => simp [hps.inside, hbs.inside, Inside, ht, hclose]
  | .array ht hargs hclose => simp [hargs.inside, Inside, ht, hclose]
  | .cond ht hc hbs => simp [hc.inside, hbs.inside, Inside, ht]
  | .condElse ht hc hbs hu hds => simp [hc.inside, hbs.inside, hds.inside, Inside, ht, hu]
  | .climb _ he => exact he.inside
termination_by structural h

/-- One or more expressions stand before the end of the input. -/
theorem Items.inside {ts : List Token} {es : List Expr} (h : Items ts es) :
    Throughout Inside ts := by
  match h with
  | .last he => exact he.inside
  | .cons he hcomma hes => simp [he.inside, hes.inside, Inside, hcomma]
termination_by structural h

/-- Arguments stand before the end of the input. -/
theorem Args.inside {ts : List Token} {es : List Expr} (h : Args ts es) :
    Throughout Inside ts := by
  match h with
  | .none => exact throughout_nil
  | .some hes => exact hes.inside
termination_by structural h

/-- A block stands before the end of the input. -/
theorem Braces.inside {ts : List Token} {body : Block} (h : Braces ts body) :
    Throughout Inside ts := by
  match h with
  | .mk ht hss hclose => simp [hss.inside, Inside, ht, hclose]
termination_by structural h

/-- A statement stands before the end of the input. -/
theorem Statement.inside {ts : List Token} {s : Stmt} (h : Statement ts s) :
    Throughout Inside ts := by
  match h with
  | .var ht hname hequals he => simp [he.inside, Inside, ht, hname, hequals]
  | .ret ht he => simp [he.inside, Inside, ht]
  | .expr he => exact he.inside
termination_by structural h

/-- Statements stand before the end of the input. -/
theorem Statements.inside {ts : List Token} {ss : List Stmt} (h : Statements ts ss) :
    Throughout Inside ts := by
  match h with
  | .nil => exact throughout_nil
  | .last hs => exact hs.inside
  | .cons hs hsemicolon hss => simp [hs.inside, hss.inside, Inside, hsemicolon]
  | .closed hs _ _ hss => exact throughout_append.mpr ⟨hs.inside, hss.inside⟩
termination_by structural h

end

end Grammar

namespace Parser

open Grammar

section Stops

/-- A construct was read up to its last token, which is a token of the text. -/
def EndsOnToken (construct : List Token → Prop) (tokens rest : List Token) : Prop :=
  ∃ ts last, tokens = ts ++ last :: rest ∧ construct (ts ++ [last]) ∧ Inside last

variable {tokens rest ts : List Token} {construct : List Token → Prop}

/-- A construct of at least one token of the text ends on its last token. -/
theorem EndsOnToken.of_ne_nil (htokens : tokens = ts ++ rest) (hts : construct ts) (hne : ts ≠ [])
    (hinside : Throughout Inside ts) : EndsOnToken construct tokens rest := by
  have hconcat : ts.dropLast ++ [ts.getLast hne] = ts := List.dropLast_concat_getLast hne
  refine ⟨ts.dropLast, ts.getLast hne, ?_, hconcat.symm ▸ hts, ?_⟩
  · rw [htokens, List.append_cons, hconcat]
  · exact hinside _ (List.getLast_mem hne)

/-- A construct with a token of the text behind it ends on this token. -/
theorem EndsOnToken.concat {last : Token} (htokens : tokens = ts ++ last :: rest)
    (hts : construct (ts ++ [last])) (hlast : Inside last) : EndsOnToken construct tokens rest :=
  ⟨ts, last, htokens, hts, hlast⟩

/-- Something else may be known about the tokens of the construct. -/
theorem EndsOnToken.imp {construct' : List Token → Prop} (h : EndsOnToken construct tokens rest)
    (himp : ∀ ts, tokens = ts ++ rest → construct ts → construct' ts) :
    EndsOnToken construct' tokens rest := by
  obtain ⟨ts, last, htokens, hts, hlast⟩ := h
  exact ⟨ts, last, htokens, himp _ (by rw [htokens, List.append_cons]) hts, hlast⟩

/-- The statement is made of all the tokens, or of those before a semicolon. -/
def StatementWithEnd (s : Stmt) (ts : List Token) : Prop :=
  Statement ts s ∨ ∃ us semicolon, ts = us ++ [semicolon] ∧ semicolon.kind = .semicolon ∧
    Statement us s

/-- The expressions are made of the tokens before a closing one. -/
def ArgsWithClose (close : TokenKind) (es : List Expr) (ts : List Token) : Prop :=
  ∃ us u, ts = us ++ [u] ∧ u.kind = close ∧ Args us es

/-- Behind the token that opens a continuation of an expression, these tokens make it a longer
expression. -/
def Continues (left : Expr) (c : Continuation) (t : Token) (e : Expr) (ts : List Token) : Prop :=
  ∀ ls, Derives (stratumOfContinuation c) ls left →
    Derives (stratumOfContinuation c) (ls ++ t :: ts) e

variable (depth : Depth) (endLine : Nat) (tokens)

/-- Whatever a function of the parser reads from the tokens, it ends on the last token of that. -/
structure EndOnTokens : Prop where
  stmt {s : Stmt} {rest : List Token} : Reading.stmt depth endLine tokens = .ok (s, rest) →
    EndsOnToken (StatementWithEnd s) tokens rest
  block {due : Expectation} {body : Block} {rest : List Token} :
    Reading.block due depth endLine tokens = .ok (body, rest) →
    EndsOnToken (Braces · body) tokens rest
  expr {strength : Nat} {e : Expr} {rest : List Token} :
    Reading.expr strength depth endLine tokens = .ok (e, rest) →
    EndsOnToken (Derives (stratumAbove strength) · e) tokens rest
  operand {e : Expr} {rest : List Token} : Reading.operand depth endLine tokens = .ok (e, rest) →
    EndsOnToken (Derives .unary · e) tokens rest
  /-- The token that opens the continuation was read before. -/
  continuation {left e : Expr} {c : Continuation} {t : Token} {rest : List Token} :
    t.kind.continuation? = some c →
    Reading.continuation left c t.line depth endLine tokens = .ok (e, rest) →
    EndsOnToken (Continues left c t e) tokens rest
  exprList {close : TokenKind} {es : List Expr} {rest : List Token} : close ≠ .endOfInput →
    Reading.exprList close depth endLine tokens = .ok (es, rest) →
    EndsOnToken (ArgsWithClose close es) tokens rest

variable {depth endLine} {tokens}

/-- A statement ends on a semicolon or on its own last token. -/
theorem stmt_endsOnToken {s : Stmt} (h : Reading.stmt depth endLine tokens = .ok (s, rest)) :
    EndsOnToken (StatementWithEnd s) tokens rest := by
  have hown : ∀ {ts}, Statement ts s → tokens = ts ++ rest →
      EndsOnToken (StatementWithEnd s) tokens rest := by
    intro ts hs htokens
    obtain ⟨t, us, hts, -⟩ := hs.exists_head
    exact .of_ne_nil htokens (.inl hs) (hts ▸ List.cons_ne_nil t us) hs.inside
  cases Reading.stmt_sound h with
  | @semicolon ts t hs ht htokens =>
    have hinside : Inside t := by simp [Inside, ht]
    exact .concat htokens (.inr ⟨ts, t, rfl, ht, hs⟩) hinside
  | last hs _ htokens => exact hown hs htokens
  | closed hs _ _ htokens => exact hown hs htokens

/-- An expression ends on its own last token. -/
theorem expr_endsOnToken {strength : Nat} {e : Expr}
    (h : Reading.expr strength depth endLine tokens = .ok (e, rest)) :
    EndsOnToken (Derives (stratumAbove strength) · e) tokens rest := by
  obtain ⟨hlt, h⟩ := Parsed.of_map_pair h
  obtain ⟨ts, htokens, he, -⟩ := (sound tokens).expr h
  obtain ⟨t, us, hts, -⟩ := he.exists_head
  exact .of_ne_nil htokens he (hts ▸ List.cons_ne_nil t us) he.inside

/-- Expressions up to a closing token end on that. -/
theorem exprList_endsOnToken {close : TokenKind} {es : List Expr} (hclose : close ≠ .endOfInput)
    (h : Reading.exprList close depth endLine tokens = .ok (es, rest)) :
    EndsOnToken (ArgsWithClose close es) tokens rest := by
  obtain ⟨hlt, h⟩ := Parsed.of_map_pair h
  obtain ⟨ts, u, htokens, hu, hes⟩ := (sound tokens).exprList h
  have hinside : Inside u := by rwa [Inside, hu]
  exact .concat htokens ⟨ts, u, rfl, hu, hes⟩ hinside

/-- An operand ends on its own last token. -/
theorem operand_endsOnToken {e : Expr} (h : Reading.operand depth endLine tokens = .ok (e, rest)) :
    EndsOnToken (Derives .unary · e) tokens rest := by
  obtain ⟨hlt, h⟩ := Parsed.of_map_pair h
  obtain ⟨ts, s, htokens, he, hs, -⟩ := operand_sound (fun us _ => sound us) h
  obtain ⟨t, us, hts, -⟩ := he.exists_head
  exact .of_ne_nil htokens (he.of_binding_le hs) (hts ▸ List.cons_ne_nil t us) he.inside

/-- A block ends on its closing brace. -/
theorem block_endsOnToken {due : Expectation} {body : Block}
    (h : Reading.block due depth endLine tokens = .ok (body, rest)) :
    EndsOnToken (Braces · body) tokens rest := by
  obtain ⟨hlt, h⟩ := Parsed.of_map_pair h
  obtain ⟨ts, htokens, hbody⟩ := (sound tokens).block h
  have hinside := hbody.inside
  cases hbody with
  | mk ht hss hclose =>
    exact .of_ne_nil htokens (.mk ht hss hclose) (List.cons_ne_nil _ _) hinside

/-- A continuation ends on the last token of its last operand or on its closing token. -/
theorem continuation_endsOnToken {left e : Expr} {c : Continuation} {t : Token}
    (ht : t.kind.continuation? = some c)
    (h : Reading.continuation left c t.line depth endLine tokens = .ok (e, rest)) :
    EndsOnToken (Continues left c t e) tokens rest := by
  have hcontinues : ∀ ts, tokens = ts ++ rest → Continues left c t e ts := by
    rintro ts rfl ls hleft
    exact (Reading.continuation_sound h ht hleft).1
  rw [Reading.continuation_eq] at h
  cases c with
  | call =>
    obtain ⟨args, us, hargs, ⟨⟩⟩ := Reading.andThen_eq_ok h
    exact (exprList_endsOnToken (by decide) hargs).imp fun ts htokens _ => hcontinues ts htokens
  | index =>
    obtain ⟨position, us, hposition, h⟩ := Reading.andThen_eq_ok h
    obtain ⟨u, vs, hclose, ⟨⟩⟩ := Reading.andThen_eq_ok h
    obtain ⟨ts, last, htokens, -, -⟩ := expr_endsOnToken hposition
    obtain ⟨hlt, hclose⟩ := Parsed.of_map_pair hclose
    obtain ⟨hus, hu⟩ := expect_sound hclose
    have hinside : Inside u := by simp [Inside, hu]
    have hall : tokens = (ts ++ [last]) ++ u :: rest := by rw [htokens, hus, List.append_cons]
    refine .concat hall (hcontinues _ ?_) hinside
    rw [hall, List.append_assoc, List.singleton_append]
    simp
  | arrow =>
    obtain ⟨target, us, htarget, ⟨⟩⟩ := Reading.andThen_eq_ok h
    exact (expr_endsOnToken htarget).imp fun ts htokens _ => hcontinues ts htokens
  | binary op =>
    obtain ⟨right, us, hright, ⟨⟩⟩ := Reading.andThen_eq_ok h
    exact (expr_endsOnToken hright).imp fun ts htokens _ => hcontinues ts htokens

/-- Whatever is read ends on the last token of that. -/
theorem endOnTokens (depth : Depth) (endLine : Nat) (tokens : List Token) :
    EndOnTokens tokens depth endLine where
  stmt := stmt_endsOnToken
  block := block_endsOnToken
  expr := expr_endsOnToken
  operand := operand_endsOnToken
  continuation := continuation_endsOnToken
  exprList := exprList_endsOnToken

end Stops

section Loops

/-- The functions of the parser that repeat something, with what they take along. -/
inductive Loop where
  /-- The statements of a program. -/
  | program
  /-- The statements of a block. -/
  | block
  /-- The continuations of an expression at a strength. -/
  | operators (strength : Nat) (left : Expr)
  /-- The parameters behind a first one. -/
  | parameters
  /-- The expressions behind a first one, up to a closing token. -/
  | items (close : TokenKind)

variable (depth : Depth) (endLine : Nat)

/-- The tokens that a loop leaves in the end. -/
def Loop.leaves (tokens : List Token) : Loop → Except ParseFailure (List Token)
  | program => (Reading.statements depth endLine tokens).map Prod.snd
  | block => (Reading.blockStatements depth endLine tokens).map Prod.snd
  | operators strength left =>
    (Reading.continuations strength left depth endLine tokens).map Prod.snd
  | parameters => (Reading.moreParams depth endLine tokens).map Prod.snd
  | items close => (Reading.moreExprs close depth endLine tokens).map Prod.snd

/-- The loop goes round once with the first tokens, and then goes on with the second ones. -/
inductive Round : Loop → List Token → Loop → List Token → Prop
  | program {t : Token} {us rest : List Token} {s : Stmt} :
    Reading.stmt depth endLine (t :: us) = .ok (s, rest) →
    Round .program (t :: us) .program rest
  | block {t : Token} {us rest : List Token} {s : Stmt} : t.kind ≠ .rightBrace →
    Reading.stmt depth endLine (t :: us) = .ok (s, rest) → Round .block (t :: us) .block rest
  | operators {t : Token} {us rest : List Token} {strength : Nat} {left longer : Expr}
      {c : Continuation} : t.kind.continuation? = some c → strength < c.binding →
    Reading.continuation left c t.line depth endLine us = .ok (longer, rest) →
    Round (.operators strength left) (t :: us) (.operators strength longer) rest
  | parameters {t : Token} {us rest : List Token} {param : Ident} : t.kind = .comma →
    Reading.name .parameter depth endLine us = .ok (param, rest) →
    Round .parameters (t :: us) .parameters rest
  | items {t : Token} {us rest : List Token} {close : TokenKind} {e : Expr} : t.kind = .comma →
    Reading.expr Binding.lowest depth endLine us = .ok (e, rest) →
    Round (.items close) (t :: us) (.items close) rest

/-- The loop goes round so many times. -/
inductive Rounds : Nat → Loop → List Token → Loop → List Token → Prop
  | none (loop : Loop) (tokens : List Token) : Rounds 0 loop tokens loop tokens
  | more {n : Nat} {loop loop₁ loop₂ : Loop} {tokens us rest : List Token} :
    Round depth endLine loop tokens loop₁ us → Rounds n loop₁ us loop₂ rest →
    Rounds (n + 1) loop tokens loop₂ rest

variable {depth endLine} {loop loop' : Loop} {tokens rest : List Token}

/-- A round takes at least one token. -/
theorem Round.exists_cons (h : Round depth endLine loop tokens loop' rest) :
    ∃ t ts, tokens = t :: ts ++ rest := by
  have hstmt : ∀ {t us s}, Reading.stmt depth endLine (t :: us) = .ok (s, rest) →
      ∃ t' ts, t :: us = t' :: ts ++ rest := by
    intro t us s hs
    obtain ⟨ts, last, htokens, -, -⟩ := stmt_endsOnToken hs
    cases ts with
    | nil => exact ⟨last, [], htokens⟩
    | cons t' ts => exact ⟨t', ts ++ [last], by rw [htokens]; simp⟩
  cases h with
  | program hs => exact hstmt hs
  | block _ hs => exact hstmt hs
  | @operators t us _ _ _ _ _ hc _ hlonger =>
    obtain ⟨ts, last, rfl, -, -⟩ := continuation_endsOnToken hc hlonger
    exact ⟨t, ts ++ [last], by simp⟩
  | @parameters t us _ _ _ hparam =>
    obtain ⟨hlt, hparam⟩ := Parsed.of_map_pair hparam
    obtain ⟨u, rfl, -, -⟩ := expectIdent_sound hparam
    exact ⟨t, [u], rfl⟩
  | @items t us _ _ _ _ he =>
    obtain ⟨ts, last, rfl, -, -⟩ := expr_endsOnToken he
    exact ⟨t, ts ++ [last], by simp⟩

/-- What reads one thing and then goes on with another leaves what the second one leaves. -/
theorem map_snd_andThen {α β γ : Type} {first : Reading α} {second : Reading β} {a : α}
    (make : α → β → γ) (h : first depth endLine tokens = .ok (a, rest)) :
    ((first.andThen fun a => second.andThen fun b => .done (make a b)) depth endLine tokens).map
      Prod.snd = (second depth endLine rest).map Prod.snd := by
  rw [Reading.andThen, h]
  change (second depth endLine rest >>= _).map Prod.snd = _
  cases second depth endLine rest <;> rfl

/-- After a round the loop ends as it ends from there. -/
theorem Round.leaves_eq (h : Round depth endLine loop tokens loop' rest) :
    loop.leaves depth endLine tokens = loop'.leaves depth endLine rest := by
  cases h with
  | program hs =>
    rw [Loop.leaves, Reading.statements_eq, Reading.look, map_snd_andThen _ hs]
    rfl
  | block hbrace hs =>
    rw [Loop.leaves, Reading.blockStatements_eq, Reading.look, if_neg hbrace, map_snd_andThen _ hs]
    rfl
  | operators hc hstrength hlonger =>
    rw [Loop.leaves, Reading.continuations_eq, Reading.look, hc]
    dsimp only
    rw [if_pos hstrength, Reading.skip, List.tail_cons, Reading.andThen, hlonger]
    rfl
  | parameters hcomma hparam =>
    rw [Loop.leaves, Reading.moreParams_eq, Reading.look, hcomma]
    exact map_snd_andThen _ hparam
  | items hcomma he =>
    rw [Loop.leaves, Reading.moreExprs_eq, Reading.look, if_pos hcomma, Reading.skip,
      List.tail_cons, map_snd_andThen _ he]
    rfl

/-- There are no more rounds than tokens that they take. -/
theorem Rounds.length_le {n : Nat} (h : Rounds depth endLine n loop tokens loop' rest) :
    n + rest.length ≤ tokens.length := by
  induction h with
  | none loop tokens => exact Nat.le_of_eq (Nat.zero_add _)
  | more hround _ ih =>
    obtain ⟨t, ts, rfl⟩ := hround.exists_cons
    simp only [List.length_append, List.length_cons]
    omega

/-- Tokens are left only where something was read. -/
theorem exists_of_map_snd {α : Type} {x : Except ParseFailure (α × List Token)}
    (h : x.map Prod.snd = .ok rest) : ∃ a, x = .ok (a, rest) := by
  cases x with
  | error failure => cases h
  | ok p =>
    cases h
    exact ⟨p.1, rfl⟩

/-- The statements of a program stop where they stand, or go round. -/
theorem statements_round {ss : List Stmt}
    (h : Reading.statements depth endLine tokens = .ok (ss, rest)) :
    tokens = rest ∨ ∃ us, Round depth endLine .program tokens .program us := by
  rw [Reading.statements_eq] at h
  cases tokens with
  | nil =>
    cases h
    exact .inl rfl
  | cons t us =>
    rw [Reading.look] at h
    obtain ⟨s, vs, hs, -⟩ := Reading.andThen_eq_ok h
    exact .inr ⟨vs, .program hs⟩

/-- The statements of a block stop behind the closing brace, or go round. -/
theorem blockStatements_round {ss : List Stmt}
    (h : Reading.blockStatements depth endLine tokens = .ok (ss, rest)) :
    (∃ t, tokens = t :: rest) ∨ ∃ us, Round depth endLine .block tokens .block us := by
  rw [Reading.blockStatements_eq] at h
  cases tokens with
  | nil => cases h
  | cons t us =>
    rw [Reading.look] at h
    split at h
    · cases h
      exact .inl ⟨t, rfl⟩
    · next hbrace =>
      obtain ⟨s, vs, hs, -⟩ := Reading.andThen_eq_ok h
      exact .inr ⟨vs, .block hbrace hs⟩

/-- The continuations of an expression stop where they stand, or go round. -/
theorem continuations_round {strength : Nat} {left e : Expr}
    (h : Reading.continuations strength left depth endLine tokens = .ok (e, rest)) :
    tokens = rest ∨ ∃ longer us,
      Round depth endLine (.operators strength left) tokens (.operators strength longer) us := by
  rw [Reading.continuations_eq] at h
  cases tokens with
  | nil =>
    cases h
    exact .inl rfl
  | cons t us =>
    rw [Reading.look] at h
    cases hc : t.kind.continuation? with
    | none =>
      rw [hc] at h
      cases h
      exact .inl rfl
    | some c =>
      rw [hc] at h
      dsimp only at h
      split at h
      · next hstrength =>
        obtain ⟨longer, vs, hlonger, -⟩ := Reading.andThen_eq_ok h
        exact .inr ⟨longer, vs, .operators hc hstrength hlonger⟩
      · cases h
        exact .inl rfl

/-- The parameters behind a first one stop behind the closing bar, or go round. -/
theorem moreParams_round {names : List Ident}
    (h : Reading.moreParams depth endLine tokens = .ok (names, rest)) :
    (∃ t, tokens = t :: rest) ∨ ∃ us, Round depth endLine .parameters tokens .parameters us := by
  rw [Reading.moreParams_eq] at h
  cases tokens with
  | nil => cases h
  | cons t us =>
    obtain ⟨kind, text, line⟩ := t
    rw [Reading.look] at h
    cases kind with
    | comma =>
      obtain ⟨param, vs, hparam, -⟩ := Reading.andThen_eq_ok h
      exact .inr ⟨vs, .parameters rfl hparam⟩
    | bar =>
      cases h
      exact .inl ⟨_, rfl⟩
    | _ => cases h

/-- The expressions behind a first one stop behind the closing token, or go round. -/
theorem moreExprs_round {close : TokenKind} {es : List Expr}
    (h : Reading.moreExprs close depth endLine tokens = .ok (es, rest)) :
    (∃ t, tokens = t :: rest) ∨
      ∃ us, Round depth endLine (.items close) tokens (.items close) us := by
  rw [Reading.moreExprs_eq] at h
  cases tokens with
  | nil => cases h
  | cons t us =>
    rw [Reading.look] at h
    split at h
    · next hcomma =>
      obtain ⟨e, vs, he, -⟩ := Reading.andThen_eq_ok h
      exact .inr ⟨vs, .items hcomma he⟩
    · obtain ⟨u, vs, hclose, ⟨⟩⟩ := Reading.andThen_eq_ok h
      obtain ⟨hlt, hclose⟩ := Parsed.of_map_pair hclose
      exact .inl ⟨u, (expect_sound hclose).1⟩

/-- A loop that does not go round any more stops where it stands, or behind its closing token. -/
theorem Loop.eq_of_leaves (hlast : ∀ loop' us, ¬Round depth endLine loop tokens loop' us)
    (h : loop.leaves depth endLine tokens = .ok rest) :
    tokens = rest ∨ ∃ t, tokens = t :: rest := by
  cases loop with
  | program =>
    obtain ⟨ss, hread⟩ := exists_of_map_snd h
    exact (statements_round hread).imp_right fun ⟨us, hround⟩ => absurd hround (hlast _ us)
  | block =>
    obtain ⟨ss, hread⟩ := exists_of_map_snd h
    exact .inr ((blockStatements_round hread).resolve_right fun ⟨us, hround⟩ => hlast _ us hround)
  | operators strength left =>
    obtain ⟨e, hread⟩ := exists_of_map_snd h
    exact (continuations_round hread).imp_right
      fun ⟨longer, us, hround⟩ => absurd hround (hlast _ us)
  | parameters =>
    obtain ⟨names, hread⟩ := exists_of_map_snd h
    exact .inr ((moreParams_round hread).resolve_right fun ⟨us, hround⟩ => hlast _ us hround)
  | items close =>
    obtain ⟨es, hread⟩ := exists_of_map_snd h
    exact .inr ((moreExprs_round hread).resolve_right fun ⟨us, hround⟩ => hlast _ us hround)

/-- What is true of every loop with some tokens. -/
structure LoopAdvances (depth : Depth) (endLine : Nat) (loop : Loop) (tokens : List Token) :
    Prop where
  /-- A round takes at least one token, and the loop ends as it ends from there. -/
  round {loop' : Loop} {rest : List Token} : Round depth endLine loop tokens loop' rest →
    (∃ t ts, tokens = t :: ts ++ rest) ∧
      loop.leaves depth endLine tokens = loop'.leaves depth endLine rest
  /-- There are no more rounds than tokens. -/
  rounds {n : Nat} {loop' : Loop} {rest : List Token} :
    Rounds depth endLine n loop tokens loop' rest → n + rest.length ≤ tokens.length
  /-- Without a further round the loop stops where it stands, or behind its closing token. -/
  last {rest : List Token} : (∀ loop' us, ¬Round depth endLine loop tokens loop' us) →
    loop.leaves depth endLine tokens = .ok rest → tokens = rest ∨ ∃ t, tokens = t :: rest

end Loops

/-- Whatever a function of the parser reads ends on its last token, which is a token of the text.
Every round of a loop takes at least one token. The functions are the only ones that satisfy their
equations, in which stepping over the end of the input is a failure of any kind: so they are
determined by recursion on the tokens that are left, and nothing ever steps over the end. -/
theorem parser_makes_progress :
    (∀ tokens depth endLine, EndOnTokens tokens depth endLine) ∧
      (∀ depth endLine loop tokens, LoopAdvances depth endLine loop tokens) ∧
        ∀ past (r : Readings), r.unroll past = r ↔ r = Readings.ofParser := by
  refine ⟨fun tokens depth endLine => endOnTokens depth endLine tokens,
    fun depth endLine loop tokens => ?_, Readings.unroll_eq_self_iff⟩
  exact ⟨fun h => ⟨h.exists_cons, h.leaves_eq⟩, Rounds.length_le, Loop.eq_of_leaves⟩

end Parser

end EtherLang.Surface
