import EtherLang.Proofs.Surface.Reading

/-!
# What is broken off can be finished

The tokens before a rejected one begin some program. Whatever the parser is in the middle of, what
is missing can be written down: a name where an expression is due, then the closing tokens of all
that is open. With every reading that fails goes therefore a list of fillers behind which the
construct would be whole, and each construct extends the fillers of its parts by its own. Nothing
that has been decided before the rejected token rests on anything behind it.
-/

namespace EtherLang

/-- The tokens that finish what has been begun. -/
inductive Filler where
  | name
  | assign
  | rightParen
  | rightBracket
  | leftBrace
  | rightBrace
  | bar
  deriving DecidableEq, Repr

namespace Filler

/-- The character that a filler is written as. -/
def char : Filler → Char
  | name => 'x'
  | assign => '='
  | rightParen => ')'
  | rightBracket => ']'
  | leftBrace => '{'
  | rightBrace => '}'
  | bar => '|'

/-- The kind of the token that a filler is. -/
def kind : Filler → TokenKind
  | name => .ident
  | assign => .assign
  | rightParen => .rightParen
  | rightBracket => .rightBracket
  | leftBrace => .leftBrace
  | rightBrace => .rightBrace
  | bar => .bar

/-- No filler is a numeral. -/
theorem kind_ne_integer (f : Filler) : f.kind ≠ .integer := by
  cases f <;> decide

/-- The token that a filler is. -/
def token (line : Nat) (f : Filler) : Token :=
  ⟨f.kind, String.ofList [f.char], line⟩

end Filler

/-- Whether a text is rejected because it ended too early. -/
def ParseError.Cause.AtEnd : ParseError.Cause → Prop
  | .expected _ got => got.kind = .endOfInput
  | .unexpected got => got.kind = .endOfInput
  | .unterminatedBlock => True
  | _ => False

namespace Surface.Parser

open Grammar

section Resumption

variable {P Q : List Token → Prop} {ts us pre lead : List Token} {endLine : Nat} {e : ParseError}

/-- Some fillers behind the tokens, whatever line they stand on, make them have a property. -/
def Resumes (P : List Token → Prop) (ts : List Token) : Prop :=
  ∃ fillers : List Filler, ∀ line, P (ts ++ fillers.map (Filler.token line))

/-- Tokens that resume do so behind other tokens and with more fillers. -/
theorem Resumes.extend (h : Resumes P ts) (more : List Filler)
    (himp : ∀ line us, P us → Q (pre ++ us ++ more.map (Filler.token line))) :
    Resumes Q (pre ++ ts) := by
  obtain ⟨fillers, hfillers⟩ := h
  refine ⟨fillers ++ more, fun line => ?_⟩
  have hq := himp line _ (hfillers line)
  simpa only [List.map_append, List.append_assoc] using hq

/-- The tokens have a property up to a last one of the given kind. -/
def EndsIn (kind : TokenKind) (P : List Token → Prop) (ts : List Token) : Prop :=
  ∃ us close, ts = us ++ [close] ∧ close.kind = kind ∧ P us

/-- A token of the given kind behind tokens with a property. -/
theorem endsIn_concat {kind : TokenKind} {close : Token} (hclose : close.kind = kind) (h : P us) :
    EndsIn kind P (us ++ [close]) :=
  ⟨us, close, rfl, hclose, h⟩

/-- The tokens end in one that is no semicolon. -/
def Open (ts : List Token) : Prop :=
  ∃ t ∈ ts.getLast?, t.kind ≠ .semicolon

/-- What ends a list is what ends its last part. -/
theorem Open.append (h : Open ts) (pre : List Token) : Open (pre ++ ts) := by
  obtain ⟨t, ht, hkind⟩ := h
  refine ⟨t, ?_, hkind⟩
  rw [List.getLast?_append, ht]
  rfl

/-- Behind a token that is no semicolon. -/
theorem open_concat {t : Token} {kind : TokenKind} (ht : t.kind = kind)
    (hkind : kind ≠ .semicolon) (pre : List Token) : Open (pre ++ [t]) :=
  ⟨t, by simp, by rwa [ht]⟩

/-- A token is rejected for itself: it gives the line, the tokens before it can be resumed, and
where there is no token any more the end of the input is the cause, or the depth behind a token
that is no semicolon. The tokens `lead` stand before all these. -/
structure Blocks (endLine : Nat) (lead : List Token) (P : List Token → Prop) (e : ParseError)
    (ts us : List Token) : Prop where
  line : e.line = (peek endLine us).line
  resumes : e.cause ≠ .tooDeep → Resumes P ts
  ending : us = [] → e.cause.AtEnd ∨ Open (lead ++ ts)

/-- What is rejected behind some tokens is rejected behind more. -/
theorem Blocks.extend (h : Blocks endLine (lead ++ pre) P e ts us)
    (himp : Resumes P ts → Resumes Q (pre ++ ts)) : Blocks endLine lead Q e (pre ++ ts) us where
  line := h.line
  resumes hcause := himp (h.resumes hcause)
  ending hus := by rw [← List.append_assoc]; exact h.ending hus

end Resumption

section Rejections

variable {α β : Type} {P Q : List Token → Prop} {endLine : Nat} {depth : Depth}
  {tokens : List Token} {reading : Reading α}

/-- A reading behind some tokens rejects as one of all of them, if what resumes the one resumes the
other. -/
theorem Confined.resume (lead pre : List Token) (more : List Filler)
    (h : Confined reading (Blocks endLine (lead ++ pre) P) depth endLine tokens)
    {whole : List Token → List Token} (hwhole : ∀ ts, whole ts = pre ++ ts)
    (himp : ∀ line us, P us → Q (pre ++ us ++ more.map (Filler.token line))) :
    Confined reading (fun e ts us => Blocks endLine lead Q e (whole ts) us) depth endLine
      tokens := by
  refine h.imp fun _ hblocks => ?_
  rw [hwhole]
  exact hblocks.extend fun hresumes => hresumes.extend more himp

/-- Rejecting the next token. -/
theorem Confined.blockNext (lead : List Token) {cause : Token → ParseError.Cause}
    (hcause : tokens = [] → (cause (Token.endOfInput endLine)).AtEnd) (fillers : List Filler)
    (hP : ∀ line, P (fillers.map (Filler.token line))) :
    Confined (.failNext cause : Reading α) (Blocks endLine lead P) depth endLine tokens := by
  refine .failNext ⟨rfl, fun _ => ⟨fillers, hP⟩, fun htokens => ?_⟩
  subst htokens
  exact .inl (hcause rfl)

/-- A token of a kind that is no numeral is never too long. -/
theorem convertible_of_kind {t : Token} {kind : TokenKind} (ht : t.kind = kind)
    (hkind : kind ≠ .integer) : Convertible t := by
  intro hinteger
  rw [ht] at hinteger
  exact absurd hinteger hkind

/-- A token that is due is supplied where it is missing. -/
theorem Confined.token (lead : List Token) (f : Filler) (due : Expectation) :
    Confined (.token f.kind due) (Blocks endLine lead fun ts => ∃ t, ts = [t] ∧ t.kind = f.kind)
      depth endLine tokens := by
  have hfail : ∀ tokens, Confined (.failNext (.expected due) : Reading Token)
      (Blocks endLine lead fun ts => ∃ t, ts = [t] ∧ t.kind = f.kind) depth endLine tokens :=
    fun tokens => .blockNext lead (fun _ => rfl) [f] fun line => ⟨f.token line, rfl, rfl⟩
  rw [Reading.token_eq]
  cases tokens with
  | nil => exact .look_nil (hfail [])
  | cons t us =>
    refine .look_cons ?_
    split
    · next ht =>
      exact .skip (convertible_of_kind ht f.kind_ne_integer) (.done t)
    · exact hfail _

/-- A name that is due is supplied where it is missing. -/
theorem Confined.name (lead : List Token) (due : Expectation) :
    Confined (.name due) (Blocks endLine lead fun ts => ∃ t, ts = [t] ∧ t.kind = .ident)
      depth endLine tokens := by
  rw [Reading.name_eq]
  exact .andThen (.token lead .name due) fun _ _ => .done _

end Rejections

section Readings

variable {depth : Depth} {endLine : Nat} {tokens ts us : List Token}

/-- What was read in sequence was read in two parts. -/
theorem Reading.andThen_eq_ok {α β : Type} {first : Reading α} {next : α → Reading β} {b : β}
    (h : first.andThen next depth endLine tokens = .ok (b, us)) :
    ∃ a vs, first depth endLine tokens = .ok (a, vs) ∧ next a depth endLine vs = .ok (b, us) := by
  obtain ⟨⟨a, vs⟩, hfirst, hnext⟩ := bind_eq_ok h
  exact ⟨a, vs, hfirst, hnext⟩

/-- What a reading has read and left is what the function behind it has. -/
theorem Parsed.of_map_pair {α : Type} {x : Except ParseFailure (Parsed α tokens)} {a : α}
    (h : x.map Parsed.pair = .ok (a, us)) : ∃ hlt, x = .ok ⟨a, us, hlt⟩ := by
  cases x with
  | error failure => cases h
  | ok p =>
    obtain ⟨value, rest, hlt⟩ := p
    cases h
    exact ⟨hlt, rfl⟩

/-- What an optional reading has read and left is what the function behind it has. -/
theorem Remaining.of_map_pair {α : Type} {x : Except ParseFailure (Remaining α tokens)} {a : α}
    (h : x.map Remaining.pair = .ok (a, us)) : ∃ hle, x = .ok ⟨a, us, hle⟩ := by
  cases x with
  | error failure => cases h
  | ok p =>
    obtain ⟨value, rest, hle⟩ := p
    cases h
    exact ⟨hle, rfl⟩

/-- The token that was due is what was read. -/
theorem Reading.token_sound {kind : TokenKind} {due : Expectation} {t : Token}
    (h : Reading.token kind due depth endLine (ts ++ us) = .ok (t, us)) :
    ts = [t] ∧ t.kind = kind := by
  obtain ⟨hlt, h⟩ := Parsed.of_map_pair h
  obtain ⟨htokens, hkind⟩ := expect_sound h
  exact ⟨List.append_cancel_right htokens, hkind⟩

/-- The name that was due is what was read. -/
theorem Reading.name_sound {due : Expectation} {i : Ident}
    (h : Reading.name due depth endLine (ts ++ us) = .ok (i, us)) :
    ∃ t : Token, ts = [t] ∧ t.kind = .ident ∧ i = ⟨t.text, t.line⟩ := by
  obtain ⟨hlt, h⟩ := Parsed.of_map_pair h
  obtain ⟨t, htokens, hkind, hi⟩ := expectIdent_sound h
  exact ⟨t, List.append_cancel_right htokens, hkind, hi⟩

/-- Parameters that were read are names up to a bar. -/
theorem Reading.params_sound {names : List Ident}
    (h : Reading.params depth endLine (ts ++ us) = .ok (names, us)) :
    ∃ ps close, ts = ps ++ [close] ∧ close.kind = .bar ∧ Params ps names := by
  obtain ⟨hlt, h⟩ := Parsed.of_map_pair h
  obtain ⟨ps, close, htokens, hclose, hnames⟩ := Parser.params_sound h
  have hts : ts ++ us = (ps ++ [close]) ++ us := by
    rw [htokens, List.append_assoc, List.singleton_append]
  exact ⟨ps, close, List.append_cancel_right hts, hclose, hnames⟩

/-- An operand that was read holds together at least as strongly as a unary operator. -/
theorem Reading.operand_sound {e : Expr}
    (h : Reading.operand depth endLine (ts ++ us) = .ok (e, us)) :
    ∃ s, Derives s ts e ∧ Binding.unary ≤ s.binding ∧ Stops s.binding us := by
  obtain ⟨hlt, h⟩ := Parsed.of_map_pair h
  obtain ⟨vs, s, htokens, he, hunary, hstops⟩ := Parser.operand_sound (fun us _ => sound us) h
  cases List.append_cancel_right htokens
  exact ⟨s, he, hunary, hstops⟩

/-- An expression that was read is derivable, and nothing behind it belongs to it. -/
theorem Reading.expr_sound {strength : Nat} {e : Expr}
    (h : Reading.expr strength depth endLine (ts ++ us) = .ok (e, us)) :
    Derives (stratumAbove strength) ts e ∧ Stops strength us := by
  obtain ⟨hlt, h⟩ := Parsed.of_map_pair h
  obtain ⟨vs, htokens, he, hstops⟩ := (sound (ts ++ us)).expr h
  cases List.append_cancel_right htokens
  exact ⟨he, hstops⟩

/-- A continuation that was read makes an expression of its own stratum. -/
theorem Reading.continuation_sound {left e : Expr} {c : Continuation} {t : Token} {ls : List Token}
    (h : Reading.continuation left c t.line depth endLine (ts ++ us) = .ok (e, us))
    (ht : t.kind.continuation? = some c) (hleft : Derives (stratumOfContinuation c) ls left) :
    Derives (stratumOfContinuation c) (ls ++ t :: ts) e ∧
      Stops (stratumOfContinuation c).binding us := by
  obtain ⟨hlt, h⟩ := Parsed.of_map_pair h
  obtain ⟨vs, htokens, he, hstops⟩ := (sound (ts ++ us)).continuation h ht hleft
  cases List.append_cancel_right htokens
  exact ⟨he, hstops⟩

/-- A block that was read is a list of statements between braces. -/
theorem Reading.block_sound {due : Expectation} {body : Block}
    (h : Reading.block due depth endLine (ts ++ us) = .ok (body, us)) : Braces ts body := by
  obtain ⟨hlt, h⟩ := Parsed.of_map_pair h
  obtain ⟨vs, htokens, hbody⟩ := (sound (ts ++ us)).block h
  cases List.append_cancel_right htokens
  exact hbody

/-- A statement that was read has the end that it needs. -/
theorem Reading.stmt_sound {s : Stmt} (h : Reading.stmt depth endLine tokens = .ok (s, us)) :
    Terminated tokens s us := by
  obtain ⟨hlt, h⟩ := Parsed.of_map_pair h
  exact (sound tokens).stmt h

/-- What was read behind `var`, or `return`, or in their place, is derivable. -/
theorem Reading.exists_derives {make : Expr → Stmt} {s : Stmt}
    (h : ((Reading.expr Binding.lowest).andThen fun value => .done (make value))
      depth endLine tokens = .ok (s, us)) :
    ∃ ts value, tokens = ts ++ us ∧ Derives .arrow ts value ∧ s = make value := by
  obtain ⟨value, vs, hvalue, hdone⟩ := Reading.andThen_eq_ok h
  cases hdone
  obtain ⟨hlt, hvalue⟩ := Parsed.of_map_pair hvalue
  obtain ⟨ts, htokens, dvalue, _⟩ := (sound tokens).expr hvalue
  exact ⟨ts, value, htokens, dvalue, rfl⟩

/-- What was read as a statement without its end is one of the grammar. -/
theorem Reading.stmtBody_sound {s : Stmt}
    (h : Reading.stmtBody depth endLine tokens = .ok (s, us)) :
    ∃ ts, tokens = ts ++ us ∧ Statement ts s := by
  have hexpr : ∀ {line}, line = (peek endLine tokens).line →
      Reading.exprBody line depth endLine tokens = .ok (s, us) →
      ∃ ts, tokens = ts ++ us ∧ Statement ts s := by
    intro line hline h
    obtain ⟨ts, value, rfl, dvalue, rfl⟩ := Reading.exists_derives h
    obtain ⟨t, vs, rfl, _⟩ := dvalue.exists_head
    cases hline
    exact ⟨t :: vs, rfl, .expr dvalue⟩
  cases tokens with
  | nil => exact hexpr rfl h
  | cons t rest =>
    obtain ⟨kind, text, line⟩ := t
    cases kind with
    | kwVar =>
      change Reading.varBody line depth endLine rest = .ok (s, us) at h
      obtain ⟨target, rest₁, htarget, hbehind⟩ := Reading.andThen_eq_ok h
      obtain ⟨equals, rest₂, hequals, hvalue⟩ := Reading.andThen_eq_ok hbehind
      obtain ⟨hlt₁, htarget⟩ := Parsed.of_map_pair htarget
      obtain ⟨hlt₂, hequals⟩ := Parsed.of_map_pair hequals
      obtain ⟨name, htokens₁, hname, rfl⟩ := expectIdent_sound htarget
      obtain ⟨rfl, kequals⟩ := expect_sound hequals
      obtain ⟨ts, value, rfl, dvalue, rfl⟩ := Reading.exists_derives hvalue
      exact ⟨_ :: name :: equals :: ts, congrArg (_ :: ·) htokens₁,
        .var rfl hname kequals dvalue⟩
    | kwReturn =>
      change Reading.retBody line depth endLine rest = .ok (s, us) at h
      obtain ⟨ts, value, htokens, dvalue, rfl⟩ := Reading.exists_derives h
      exact ⟨_ :: ts, congrArg (_ :: ·) htokens, .ret rfl dvalue⟩
    | _ => exact hexpr rfl h

end Readings

/-- A numeral is rejected for itself. -/
theorem Confined.numeral {fault : ParseError → List Token → List Token → Prop} {endLine : Nat}
    {depth : Depth} {t : Token} {us : List Token}
    (h : fault ⟨.literalOutOfRange t.text, t.line⟩ [] (t :: us)) :
    Confined (.numeral t) fault depth endLine (t :: us) := by
  cases hliteral : literal t with
  | ok e =>
    refine .ok e [t] us rfl (throughout_cons.mpr ⟨fun _ => ?_, throughout_nil⟩) fun _ _ => ?_
    · unfold literal at hliteral
      split at hliteral
      · cases hliteral
      · exact Nat.le_of_not_lt ‹_›
    · rw [Reading.numeral, hliteral]
      rfl
  | error failure =>
    refine .error failure [] (t :: us) rfl throughout_nil (fun e he => ?_) fun _ _ => ?_
    · subst he
      unfold literal at hliteral
      split at hliteral
      · cases hliteral
      · split at hliteral
        · cases hliteral
        · cases hliteral
          exact h
    · rw [Reading.numeral, hliteral]
      rfl

section Parameters

variable {endLine : Nat} {depth : Depth} {tokens : List Token}

/-- A list of parameters that is broken off behind a first one can be finished. -/
theorem Confined.moreParams (lead : List Token) {first : Token} {tokens : List Token}
    (hfirst : first.kind = .ident) :
    Confined .moreParams (Blocks endLine lead (EndsIn .bar fun ps => ∃ names,
      Names (first :: ps) names)) depth endLine tokens := by
  have hfail : ∀ tokens, Confined (.failNext (.expected .parametersClose) : Reading (List Ident))
      (Blocks endLine lead (EndsIn .bar fun ps => ∃ names, Names (first :: ps) names))
      depth endLine tokens :=
    fun tokens => .blockNext lead (fun _ => rfl) [.bar] fun line =>
      ⟨[], _, rfl, rfl, _, .last hfirst⟩
  rw [Reading.moreParams_eq]
  match tokens with
  | [] => exact .look_nil (hfail [])
  | t :: us =>
    refine .look_cons ?_
    split
    · next hcomma =>
      refine .skip (convertible_of_kind hcomma (by decide)) ?_
      refine .andThen (.resume lead [t] [.bar] (.name _ .parameter) (fun _ => rfl) ?_) ?_
      · rintro line _ ⟨u, rfl, hu⟩
        exact endsIn_concat rfl ⟨_, .cons hfirst hcomma (.last hu)⟩
      · intro param ts rest hus hparam
        obtain ⟨u, rfl, hu, _⟩ := Reading.name_sound hparam
        refine .andThen (.resume lead [t, u] [] (moreParams _ hu) (fun _ => rfl) ?_)
          fun _ _ => .done _
        rintro line _ ⟨ps, close, rfl, hclose, names, hnames⟩
        rw [List.map_nil, List.append_nil, ← List.append_assoc]
        exact endsIn_concat hclose ⟨_, .cons hfirst hcomma hnames⟩
    · next hbar => exact .skip (convertible_of_kind hbar (by decide)) (.done [])
    · exact hfail _
termination_by tokens.length
decreasing_by simp only [hus, List.length_cons, List.length_append]; omega

/-- A list of parameters that is broken off can be finished. -/
theorem Confined.params (lead : List Token) :
    Confined .params (Blocks endLine lead (EndsIn .bar fun ps => ∃ names, Params ps names))
      depth endLine tokens := by
  rw [Reading.params_eq]
  cases tokens with
  | nil =>
    exact .look_nil (.blockNext lead (fun _ => rfl) [.bar] fun line => ⟨[], _, rfl, rfl, _, .none⟩)
  | cons t us =>
    refine .look_cons ?_
    split
    · next hbar => exact .skip (convertible_of_kind hbar (by decide)) (.done [])
    · refine .andThen (.resume lead [] [.bar] (.name _ .parameter) (fun _ => rfl) ?_) ?_
      · rintro line _ ⟨u, rfl, hu⟩
        exact endsIn_concat rfl ⟨_, .some (.last hu)⟩
      · intro param ts rest _ hparam
        obtain ⟨u, rfl, hu, _⟩ := Reading.name_sound hparam
        refine .andThen (.resume lead [u] [] (.moreParams _ hu) (fun _ => rfl) ?_)
          fun _ _ => .done _
        rintro line _ ⟨ps, close, rfl, hclose, names, hnames⟩
        rw [List.map_nil, List.append_nil, ← List.append_assoc]
        exact endsIn_concat hclose ⟨_, .some hnames⟩

end Parameters

section Functions

/-- What the functions of the parser reject in the tokens is the first token that does not go on
with anything: what stands before it can be finished. -/
structure Viable (tokens : List Token) : Prop where
  expr : ∀ {endLine depth} lead strength, (tokens = [] → Open lead) →
    Confined (.expr strength)
      (Blocks endLine lead fun ts => ∃ e, Derives (stratumAbove strength) ts e) depth endLine tokens
  continuations : ∀ {endLine depth} lead strength {s ls left}, Derives s ls left →
    Stops s.binding tokens →
    Confined (.continuations strength left)
      (Blocks endLine lead fun ts => ∃ e, Derives (stratumAbove strength) (ls ++ ts) e)
      depth endLine tokens
  continuation : ∀ {endLine depth} lead {t : Token} {c ls left}, t.kind.continuation? = some c →
    Derives (stratumOfContinuation c) ls left → (tokens = [] → Open lead) →
    Confined (.continuation left c t.line)
      (Blocks endLine lead fun ts => ∃ e, Derives (stratumOfContinuation c) (ls ++ t :: ts) e)
      depth endLine tokens
  alternative : ∀ {endLine depth} lead,
    Confined .alternative
      (Blocks endLine lead fun ts => ∃ t us body, ts = t :: us ∧ t.kind = .kwElse ∧ Braces us body)
      depth endLine tokens
  exprList : ∀ {endLine depth} lead (f : Filler),
    Confined (.exprList f.kind)
      (Blocks endLine lead (EndsIn f.kind fun ts => ∃ es, Args ts es)) depth endLine tokens
  moreExprs : ∀ {endLine depth} lead (f : Filler) {ls first}, Derives .arrow ls first →
    Confined (.moreExprs f.kind)
      (Blocks endLine lead (EndsIn f.kind fun ts => ∃ es, Items (ls ++ ts) es)) depth endLine tokens
  block : ∀ {endLine depth} lead due,
    Confined (.block due) (Blocks endLine lead fun ts => ∃ body, Braces ts body)
      depth endLine tokens
  blockStatements : ∀ {endLine depth} lead,
    Confined .blockStatements
      (Blocks endLine lead (EndsIn .rightBrace fun ts => ∃ ss, Statements ts ss))
      depth endLine tokens
  stmt : ∀ {endLine depth} lead, tokens ≠ [] →
    Confined .stmt (Blocks endLine lead fun ts => ∃ s, Statement ts s) depth endLine tokens

/-- What the functions of the parser reject in fewer tokens is the first token that does not go on
with anything. -/
def ViableBelow (tokens : List Token) : Prop :=
  ∀ us : List Token, us.length < tokens.length → Viable us

variable {endLine : Nat} {depth : Depth} {tokens : List Token}

/-- A unary operator without its operand can be finished. -/
theorem unary_viable (op : UnaryOp) {t : Token} (ht : t.kind = op.tokenKind) (next : Viable tokens)
    (lead : List Token) :
    Confined (.skip ((Reading.expr Binding.unary).andThen fun inner =>
        .done (Expr.unary op inner t.line)))
      (Blocks endLine lead fun ts => ∃ e s, Derives s ts e ∧ Binding.unary ≤ s.binding)
      depth endLine (t :: tokens) := by
  have hkind : op.tokenKind ≠ .integer ∧ op.tokenKind ≠ .semicolon := by
    cases op <;> decide
  have hopen : Open (lead ++ [t]) := open_concat ht hkind.2 lead
  refine .skip (convertible_of_kind ht hkind.1) ?_
  refine .andThen (.resume lead [t] [] (next.expr _ _ fun _ => hopen) (fun _ => rfl) ?_)
    fun _ _ => .done _
  rintro line ts ⟨e, he⟩
  rw [List.map_nil, List.append_nil]
  exact ⟨_, .unary, .unary op ht he, Nat.le_refl _⟩

/-- A pair of braces is a block without statements. -/
theorem braces_fillers (line : Nat) :
    Braces ([.leftBrace, .rightBrace].map (Filler.token line)) (.mk [] line) :=
  .mk rfl .nil rfl

/-- A function that is broken off can be finished. -/
theorem function_viable {t : Token} (ht : t.kind = .bar) (below : ViableBelow (t :: tokens))
    (lead : List Token) :
    Confined (.skip (Reading.params.andThen fun names =>
        (Reading.block .functionBody).andThen fun body =>
        .done (Expr.function names body t.line)))
      (Blocks endLine lead fun ts => ∃ e s, Derives s ts e ∧ Binding.unary ≤ s.binding)
      depth endLine (t :: tokens) := by
  refine .skip (convertible_of_kind ht (by decide)) ?_
  refine .andThen (.resume lead [t] [.leftBrace, .rightBrace] (.params _) (fun _ => rfl) ?_) ?_
  · rintro line _ ⟨ps, close, rfl, hclose, names, hnames⟩
    have dfunction := Derives.function ht hnames hclose (braces_fillers line)
    exact ⟨_, .primary, by simpa using dfunction, by decide⟩
  · intro names ts rest htokens hnames
    obtain ⟨ps, close, rfl, hclose, dnames⟩ := Reading.params_sound hnames
    have hlt : rest.length < (t :: tokens).length := by
      simp only [htokens, List.length_cons, List.length_append]
      omega
    refine .andThen (.resume lead (t :: (ps ++ [close])) [] ((below rest hlt).block _ _)
      (fun _ => rfl) ?_) fun _ _ => .done _
    rintro line bs ⟨body, hbody⟩
    have dfunction := Derives.function ht dnames hclose hbody
    exact ⟨_, .primary, by simpa using dfunction, by decide⟩

/-- An `if` that is broken off can be finished. -/
theorem cond_viable {t : Token} (ht : t.kind = .kwIf) (below : ViableBelow (t :: tokens))
    (lead : List Token) :
    Confined (.skip ((Reading.expr Binding.lowest).andThen fun condition =>
        (Reading.block .ifBody).andThen fun consequence => Reading.alternative.andThen fun part =>
        .done (Expr.cond condition consequence part t.line)))
      (Blocks endLine lead fun ts => ∃ e s, Derives s ts e ∧ Binding.unary ≤ s.binding)
      depth endLine (t :: tokens) := by
  have next : Viable tokens := below tokens (Nat.lt_succ_self _)
  have hopen : Open (lead ++ [t]) := open_concat ht (by decide) lead
  refine .skip (convertible_of_kind ht (by decide)) ?_
  refine .andThen (.resume lead [t] [.leftBrace, .rightBrace] (next.expr _ _ fun _ => hopen)
    (fun _ => rfl) ?_) ?_
  · rintro line cs ⟨condition, dcondition⟩
    have dcond := Derives.cond ht dcondition (braces_fillers line)
    exact ⟨_, .primary, by simpa using dcond, by decide⟩
  · intro condition cs rest htokens hcondition
    have dcondition := (Reading.expr_sound hcondition).1
    have hlt : rest.length < (t :: tokens).length := by
      simp only [htokens, List.length_cons, List.length_append]
      omega
    refine .andThen (.resume lead (t :: cs) [] ((below rest hlt).block _ _) (fun _ => rfl) ?_) ?_
    · rintro line bs ⟨consequence, dconsequence⟩
      have dcond := Derives.cond ht dcondition dconsequence
      exact ⟨_, .primary, by simpa using dcond, by decide⟩
    · intro consequence bs rest' hrest hconsequence
      have dconsequence := Reading.block_sound hconsequence
      have hlt' : rest'.length < (t :: tokens).length := by
        simp only [hrest, List.length_append] at hlt
        omega
      refine .andThen (.resume lead (t :: (cs ++ bs)) [] ((below rest' hlt').alternative _)
        (fun _ => by simp) ?_) fun _ _ => .done _
      rintro line _ ⟨u, ds, alternative, rfl, hu, halternative⟩
      have dcond := Derives.condElse ht dcondition dconsequence hu halternative
      exact ⟨_, .primary, by simpa using dcond, by decide⟩

/-- Operands that are broken off can be finished, where fewer tokens can. -/
theorem operand_viable (below : ViableBelow tokens) (lead : List Token) :
    Confined .operand
      (Blocks endLine lead fun ts => ∃ e s, Derives s ts e ∧ Binding.unary ≤ s.binding)
      depth endLine tokens := by
  have hname : ∀ line, ∃ e s, Derives s [Filler.name.token line] e ∧ Binding.unary ≤ s.binding :=
    fun line => ⟨_, .primary, .ident rfl, by decide⟩
  rw [Reading.operand_eq]
  cases tokens with
  | nil => exact .look_nil (.blockNext lead (fun _ => rfl) [.name] hname)
  | cons t us =>
    have next : Viable us := below us (Nat.lt_succ_self _)
    refine .look_cons ?_
    split
    · exact .numeral ⟨rfl, fun _ => ⟨[.name], hname⟩, (absurd · (List.cons_ne_nil _ _))⟩
    · next hkind => exact .skip (convertible_of_kind hkind (by decide)) (.done _)
    · next hkind => exact .skip (convertible_of_kind hkind (by decide)) (.done _)
    · next hkind => exact .skip (convertible_of_kind hkind (by decide)) (.done _)
    · next hkind =>
      have hopen : Open (lead ++ [t]) := open_concat hkind (by decide) lead
      refine .skip (convertible_of_kind hkind (by decide)) ?_
      refine .andThen (.resume lead [t] [.rightParen] (next.expr _ _ fun _ => hopen)
        (fun _ => rfl) ?_) ?_
      · rintro line ts ⟨e, he⟩
        exact ⟨e, .primary, .group hkind he rfl, by decide⟩
      · intro inner ts rest _ hinner
        refine .andThen (.resume lead (t :: ts) [] (.token _ .rightParen _) (fun _ => rfl) ?_)
          fun _ _ => .done _
        rintro line _ ⟨close, rfl, hclose⟩
        rw [List.map_nil, List.append_nil]
        exact ⟨inner, .primary, .group hkind (Reading.expr_sound hinner).1 hclose, by decide⟩
    · next hkind => exact unary_viable .negate hkind next lead
    · next hkind => exact unary_viable .not hkind next lead
    · next hkind => exact function_viable hkind below lead
    · next hkind =>
      refine .skip (convertible_of_kind hkind (by decide)) ?_
      refine .andThen (.resume lead [t] [] (next.exprList _ .rightBracket) (fun _ => rfl) ?_)
        fun _ _ => .done _
      rintro line _ ⟨ts, close, rfl, hclose, elements, helements⟩
      rw [List.map_nil, List.append_nil]
      exact ⟨_, .primary, .array hkind helements hclose, by decide⟩
    · next hkind => exact cond_viable hkind below lead
    · exact .blockNext lead (absurd · (List.cons_ne_nil _ _)) [.name] hname
    · exact .blockNext lead (absurd · (List.cons_ne_nil _ _)) [.name] hname

/-- Expressions that are broken off can be finished, where fewer tokens can. -/
theorem expr_viable (below : ViableBelow tokens) (lead : List Token) (strength : Nat)
    (hlead : tokens = [] → Open lead) :
    Confined (.expr strength)
      (Blocks endLine lead fun ts => ∃ e, Derives (stratumAbove strength) ts e)
      depth endLine tokens := by
  rw [Reading.expr_eq]
  refine .deeper ⟨rfl, fun hdeep => absurd rfl hdeep, fun htokens => ?_⟩ fun depth => ?_
  · rw [List.append_nil]
    exact .inr (hlead htokens)
  · refine .andThen (.resume lead [] [] (operand_viable below _) (fun _ => rfl) ?_) ?_
    · rintro line ts ⟨e, s, he, hunary⟩
      rw [List.map_nil, List.append_nil]
      exact ⟨e, he.of_binding_le (Nat.le_trans (binding_stratumAbove_le_unary strength) hunary)⟩
    · intro left ts rest htokens hleft
      obtain ⟨s, dleft, _, hstops⟩ := Reading.operand_sound hleft
      obtain ⟨t, ts, rfl, _⟩ := dleft.exists_head
      have hlt : rest.length < tokens.length := by
        simp only [htokens, List.length_cons, List.length_append]
        omega
      refine .resume lead (t :: ts) []
        ((below rest hlt).continuations _ strength dleft hstops) (fun _ => rfl) ?_
      rintro line us ⟨e, he⟩
      rw [List.map_nil, List.append_nil]
      exact ⟨e, he⟩

/-- The continuations of an expression that are broken off can be finished, where fewer tokens
can. -/
theorem continuations_viable (below : ViableBelow tokens) (lead : List Token) (strength : Nat)
    {s : Stratum} {ls : List Token} {left : Expr} (hleft : Derives s ls left)
    (hstops : Stops s.binding tokens) :
    Confined (.continuations strength left)
      (Blocks endLine lead fun ts => ∃ e, Derives (stratumAbove strength) (ls ++ ts) e)
      depth endLine tokens := by
  rw [Reading.continuations_eq]
  cases tokens with
  | nil => exact .look_nil (.done left)
  | cons t us =>
    refine .look_cons ?_
    split
    · exact .done left
    · next c hc =>
      split
      · next hstronger =>
        have hoperand : Derives (stratumOfContinuation c) ls left := by
          refine hleft.of_binding_le ?_
          rw [binding_stratumOfContinuation]
          exact hstops t rfl c hc
        have habove' : (stratumAbove strength).binding ≤ (stratumOfContinuation c).binding := by
          rw [binding_stratumOfContinuation]
          exact binding_stratumAbove_le hstronger
        have hkind : t.kind ≠ .integer ∧ t.kind ≠ .semicolon := by
          constructor <;> intro hkind <;> rw [hkind] at hc <;> cases hc
        have hopen : Open (lead ++ [t]) := open_concat rfl hkind.2 lead
        refine .skip (convertible_of_kind rfl hkind.1) ?_
        refine .andThen (.resume lead [t] [] ((below us (Nat.lt_succ_self _)).continuation _ hc
          hoperand fun _ => hopen) (fun _ => rfl) ?_) ?_
        · rintro line ts ⟨e, he⟩
          rw [List.map_nil, List.append_nil]
          exact ⟨e, he.of_binding_le habove'⟩
        · intro longer ts rest htokens hlonger
          obtain ⟨dlonger, hstops'⟩ := Reading.continuation_sound hlonger hc hoperand
          have hlt : rest.length < (t :: us).length := by
            simp only [htokens, List.length_cons, List.length_append]
            omega
          refine .resume lead (t :: ts) []
            ((below rest hlt).continuations _ strength dlonger hstops') (fun _ => rfl) ?_
          rintro line vs ⟨e, he⟩
          exact ⟨e, by simpa using he⟩
      · exact .done left

/-- Lists of expressions that are broken off can be finished, where fewer tokens can. -/
theorem exprList_viable (below : ViableBelow tokens) (lead : List Token) (f : Filler) :
    Confined (.exprList f.kind)
      (Blocks endLine lead (EndsIn f.kind fun ts => ∃ es, Args ts es)) depth endLine tokens := by
  rw [Reading.exprList_eq]
  cases tokens with
  | nil =>
    exact .look_nil (.blockNext lead (fun _ => rfl) [f] fun line => ⟨[], _, rfl, rfl, _, .none⟩)
  | cons t us =>
    refine .look_cons ?_
    split
    · next hclose =>
      exact .skip (convertible_of_kind hclose f.kind_ne_integer) (.done [])
    · refine .andThen (.resume lead [] [f] (expr_viable below _ _ nofun) (fun _ => rfl) ?_) ?_
      · rintro line ts ⟨e, he⟩
        exact endsIn_concat rfl ⟨_, .some (.last he)⟩
      · intro first ts rest htokens hfirst
        have dfirst := (Reading.expr_sound hfirst).1
        obtain ⟨u, ts, rfl, _⟩ := dfirst.exists_head
        have hlt : rest.length < (t :: us).length := by
          simp only [htokens, List.length_cons, List.length_append]
          omega
        refine .andThen (.resume lead (u :: ts) [] ((below rest hlt).moreExprs _ f dfirst)
          (fun _ => rfl) ?_) fun _ _ => .done _
        rintro line _ ⟨vs, close, rfl, hclose, es, hes⟩
        rw [List.map_nil, List.append_nil, ← List.append_assoc]
        exact endsIn_concat hclose ⟨es, .some hes⟩

/-- A continuation that is broken off can be finished, where fewer tokens can. -/
theorem continuation_viable (below : ViableBelow tokens) (lead : List Token) {t : Token}
    {c : Continuation} {ls : List Token} {left : Expr} (hc : t.kind.continuation? = some c)
    (hleft : Derives (stratumOfContinuation c) ls left) (hlead : tokens = [] → Open lead) :
    Confined (.continuation left c t.line)
      (Blocks endLine lead fun ts => ∃ e, Derives (stratumOfContinuation c) (ls ++ t :: ts) e)
      depth endLine tokens := by
  have hkind := kind_of_continuation? hc
  have hlead' : tokens = [] → Open (lead ++ []) := by
    rw [List.append_nil]
    exact hlead
  rw [Reading.continuation_eq]
  cases c with
  | call =>
    refine .andThen (.resume lead [] [] (exprList_viable below _ .rightParen) (fun _ => rfl) ?_)
      fun _ _ => .done _
    rintro line _ ⟨ts, close, rfl, hclose, args, hargs⟩
    rw [List.map_nil, List.append_nil]
    exact ⟨_, .call hleft hkind hargs hclose⟩
  | index =>
    refine .andThen (.resume lead [] [.rightBracket] (expr_viable below _ _ hlead')
      (fun _ => rfl) ?_) ?_
    · rintro line ts ⟨position, dposition⟩
      exact ⟨_, .index hleft hkind dposition rfl⟩
    · intro position ts rest _ hposition
      have dposition := (Reading.expr_sound hposition).1
      refine .andThen (.resume lead ts [] (.token _ .rightBracket _) (fun _ => rfl) ?_)
        fun _ _ => .done _
      rintro line _ ⟨close, rfl, hclose⟩
      rw [List.map_nil, List.append_nil]
      exact ⟨_, .index hleft hkind dposition hclose⟩
  | arrow =>
    refine .andThen (.resume lead [] [] (expr_viable below _ _ hlead') (fun _ => rfl) ?_)
      fun _ _ => .done _
    rintro line ts ⟨target, dtarget⟩
    rw [List.map_nil, List.append_nil]
    exact ⟨_, .arrow hleft hkind dtarget⟩
  | binary op =>
    refine .andThen (.resume lead [] [] (expr_viable below _ _ hlead') (fun _ => rfl) ?_)
      fun _ _ => .done _
    rintro line ts ⟨right, dright⟩
    rw [List.map_nil, List.append_nil]
    rw [stratumAbove_binding] at dright
    exact ⟨_, .binary op hleft hkind dright⟩

/-- The `else` part of an `if` that is broken off can be finished, where fewer tokens can. -/
theorem alternative_viable (below : ViableBelow tokens) (lead : List Token) :
    Confined .alternative
      (Blocks endLine lead fun ts => ∃ t us body, ts = t :: us ∧ t.kind = .kwElse ∧ Braces us body)
      depth endLine tokens := by
  rw [Reading.alternative_eq]
  cases tokens with
  | nil => exact .look_nil (.done none)
  | cons t us =>
    refine .look_cons ?_
    split
    · next helse =>
      refine .skip (convertible_of_kind helse (by decide)) ?_
      refine .andThen (.resume lead [t] [] ((below us (Nat.lt_succ_self _)).block _ _)
        (fun _ => rfl) ?_) fun _ _ => .done _
      rintro line bs ⟨body, hbody⟩
      rw [List.map_nil, List.append_nil]
      exact ⟨t, bs, body, rfl, helse, hbody⟩
    · exact .done none

/-- Further expressions of a list that are broken off can be finished, where fewer tokens can. -/
theorem moreExprs_viable (below : ViableBelow tokens) (lead : List Token) (f : Filler)
    {ls : List Token} {first : Expr} (hfirst : Derives .arrow ls first) :
    Confined (.moreExprs f.kind)
      (Blocks endLine lead (EndsIn f.kind fun ts => ∃ es, Items (ls ++ ts) es))
      depth endLine tokens := by
  have hitems : ∃ es, Items (ls ++ []) es := ⟨[first], by simpa using .last hfirst⟩
  rw [Reading.moreExprs_eq]
  cases tokens with
  | nil =>
    exact .look_nil (.blockNext lead (fun _ => rfl) [f] fun line => ⟨[], _, rfl, rfl, hitems⟩)
  | cons t us =>
    refine .look_cons ?_
    split
    · next hcomma =>
      have hopen : Open (lead ++ [t]) := open_concat hcomma (by decide) lead
      refine .skip (convertible_of_kind hcomma (by decide)) ?_
      refine .andThen (.resume lead [t] [f]
        ((below us (Nat.lt_succ_self _)).expr _ _ fun _ => hopen) (fun _ => rfl) ?_) ?_
      · rintro line ts ⟨e, he⟩
        exact endsIn_concat rfl ⟨_, .cons hfirst hcomma (.last he)⟩
      · intro next ts rest htokens hnext
        have dnext := (Reading.expr_sound hnext).1
        have hlt : rest.length < (t :: us).length := by
          simp only [htokens, List.length_cons, List.length_append]
          omega
        refine .andThen (.resume lead (t :: ts) [] ((below rest hlt).moreExprs _ f dnext)
          (fun _ => rfl) ?_) fun _ _ => .done _
        rintro line _ ⟨vs, close, rfl, hclose, es, hes⟩
        rw [List.map_nil, List.append_nil, ← List.append_assoc]
        exact endsIn_concat hclose ⟨_, .cons hfirst hcomma hes⟩
    · refine .andThen (.resume lead [] [] (.token _ f _) (fun _ => rfl) ?_) fun _ _ => .done _
      rintro line _ ⟨close, rfl, hclose⟩
      exact ⟨[], close, rfl, hclose, hitems⟩

/-- Blocks that are broken off can be finished, where fewer tokens can. -/
theorem block_viable (below : ViableBelow tokens) (lead : List Token) (due : Expectation) :
    Confined (.block due) (Blocks endLine lead fun ts => ∃ body, Braces ts body)
      depth endLine tokens := by
  rw [Reading.block_eq]
  refine .andThen (.resume lead [] [.rightBrace] (.token _ .leftBrace due) (fun _ => rfl) ?_) ?_
  · rintro line _ ⟨brace, rfl, hbrace⟩
    exact ⟨_, .mk hbrace .nil rfl⟩
  · intro brace ts rest htokens hbrace
    obtain ⟨rfl, kbrace⟩ := Reading.token_sound hbrace
    have hlt : rest.length < tokens.length := by
      simp only [htokens, List.length_append, List.length_singleton]
      omega
    refine .andThen (.resume lead [brace] [] ((below rest hlt).blockStatements _) (fun _ => rfl) ?_)
      fun _ _ => .done _
    rintro line _ ⟨us, close, rfl, hclose, ss, hss⟩
    rw [List.map_nil, List.append_nil]
    exact ⟨_, .mk kbrace hss hclose⟩

/-- A name is an expression. -/
theorem derives_filler (line : Nat) : ∃ e, Derives .arrow ([.name].map (Filler.token line)) e :=
  ⟨_, (Derives.ident rfl).of_binding_le (by decide)⟩

/-- Behind `var`, what is broken off can be finished. -/
theorem varBody_viable {t : Token} (ht : t.kind = .kwVar) (below : ViableBelow (t :: tokens))
    (lead : List Token) :
    Confined (.skip (.varBody t.line)) (Blocks endLine lead fun ts => ∃ s, Statement ts s)
      depth endLine (t :: tokens) := by
  refine .skip (convertible_of_kind ht (by decide)) ?_
  refine .andThen (.resume lead [t] [.assign, .name] (.name _ .varName) (fun _ => rfl) ?_) ?_
  · rintro line _ ⟨name, rfl, hname⟩
    obtain ⟨value, dvalue⟩ := derives_filler line
    exact ⟨_, .var ht hname rfl dvalue⟩
  · intro target ts rest₁ htokens htarget
    obtain ⟨name, rfl, hname, _⟩ := Reading.name_sound htarget
    refine .andThen (.resume lead [t, name] [.name] (.token _ .assign _) (fun _ => rfl) ?_) ?_
    · rintro line _ ⟨equals, rfl, hequals⟩
      obtain ⟨value, dvalue⟩ := derives_filler line
      exact ⟨_, .var ht hname hequals dvalue⟩
    · intro equals ts rest₂ hrest hequals
      obtain ⟨rfl, kequals⟩ := Reading.token_sound hequals
      have hlt : rest₂.length < (t :: tokens).length := by
        simp only [htokens, hrest, List.length_cons, List.length_append]
        omega
      have hopen : Open (lead ++ [t, name, equals]) :=
        Open.append ⟨equals, rfl, by rw [kequals]; decide⟩ lead
      refine .andThen (.resume lead [t, name, equals] [] ((below rest₂ hlt).expr _ _ fun _ => hopen)
        (fun _ => rfl) ?_) fun _ _ => .done _
      rintro line us ⟨value, dvalue⟩
      rw [List.map_nil, List.append_nil]
      exact ⟨_, .var ht hname kequals dvalue⟩

/-- Statements that are broken off before their end can be finished, where fewer tokens can. -/
theorem stmtBody_viable (below : ViableBelow tokens) (lead : List Token) (htokens : tokens ≠ []) :
    Confined .stmtBody (Blocks endLine lead fun ts => ∃ s, Statement ts s)
      depth endLine tokens := by
  cases tokens with
  | nil => exact absurd rfl htokens
  | cons t us =>
    refine .here ?_
    split
    · next hkind => exact varBody_viable hkind below lead
    · next hkind =>
      have hopen : Open (lead ++ [t]) := open_concat hkind (by decide) lead
      refine .skip (convertible_of_kind hkind (by decide)) ?_
      refine .andThen (.resume lead [t] [] ((below us (Nat.lt_succ_self _)).expr _ _ fun _ => hopen)
        (fun _ => rfl) ?_) fun _ _ => .done _
      rintro line ts ⟨value, dvalue⟩
      rw [List.map_nil, List.append_nil]
      exact ⟨_, .ret hkind dvalue⟩
    · refine .andThen (.resume lead [] [] (expr_viable below _ _ (absurd · htokens))
        (fun _ => rfl) ?_) fun _ _ => .done _
      rintro line ts ⟨value, dvalue⟩
      obtain ⟨u, vs, rfl, _⟩ := dvalue.exists_head
      rw [List.map_nil, List.append_nil]
      exact ⟨_, .expr dvalue⟩

/-- The end of a statement is missing behind a whole statement. -/
theorem Confined.terminator (lead : List Token) (closed : Bool) :
    Confined (.terminator closed) (Blocks endLine lead fun ts => ts = []) depth endLine tokens := by
  rw [Reading.terminator_eq]
  cases tokens with
  | nil => exact .look_nil (.done ())
  | cons t us =>
    refine .look_cons ?_
    split
    · next hsemicolon => exact .skip (convertible_of_kind hsemicolon (by decide)) (.done ())
    · split
      · exact .done ()
      · exact .blockNext lead nofun [] fun _ => rfl

/-- Statements that are broken off can be finished, where fewer tokens can. -/
theorem stmt_viable (below : ViableBelow tokens) (lead : List Token) (htokens : tokens ≠ []) :
    Confined .stmt (Blocks endLine lead fun ts => ∃ s, Statement ts s) depth endLine tokens := by
  rw [Reading.stmt_eq]
  refine .andThen (stmtBody_viable below lead htokens) ?_
  intro s ts us _ hbody
  obtain ⟨vs, hvs, hs⟩ := Reading.stmtBody_sound hbody
  cases List.append_cancel_right hvs
  refine .andThen (.resume lead ts [] (.terminator _ _) (fun _ => rfl) ?_) fun _ _ => .done _
  rintro line _ rfl
  rw [List.map_nil, List.append_nil, List.append_nil]
  exact ⟨s, hs⟩

/-- A statement that was read is one before every list of tokens that begins with the same one. -/
theorem terminated_of_sameNext {fault : ParseError → List Token → List Token → Prop}
    {ts us us' : List Token} {s : Stmt} (hstmt : Confined .stmt fault depth endLine (ts ++ us))
    (h : Reading.stmt depth endLine (ts ++ us) = .ok (s, us))
    (hnext : SameNext endLine endLine us us') : Terminated (ts ++ us') s us' := by
  obtain ⟨vs, hvs, _, hall⟩ := hstmt.of_eq_ok h
  cases List.append_cancel_right hvs
  exact Reading.stmt_sound (hall Depth.le_rfl hnext)

/-- Statements that are broken off behind a first one can be finished, if a statement may stand
before what finishes them and a list may end with it. -/
theorem Resumes.behind_stmt {P : List Token → Prop}
    {fault : ParseError → List Token → List Token → Prop} {ts us rest : List Token} {s : Stmt}
    (hP : ∀ {tokens rest}, Terminated tokens s rest → P rest → P tokens)
    (hlast : ∀ {ts}, Statements ts [s] → Resumes P ts)
    (hstmt : Confined .stmt fault depth endLine (ts ++ (us ++ rest)))
    (h : Reading.stmt depth endLine (ts ++ (us ++ rest)) = .ok (s, us ++ rest))
    (hus : Resumes P us) : Resumes P (ts ++ us) := by
  cases us with
  | nil =>
    obtain ⟨vs, hvs, hss⟩ := (Reading.stmt_sound h).statements .nil (List.nil_append _).symm
    cases List.append_cancel_right hvs
    rw [List.append_nil]
    exact hlast hss
  | cons u us =>
    obtain ⟨fillers, hfillers⟩ := hus
    refine ⟨fillers, fun line => ?_⟩
    rw [List.append_assoc]
    exact hP (terminated_of_sameNext hstmt h (.cons u _ _)) (hfillers line)

/-- The statements of a block that are broken off can be finished, where fewer tokens can. -/
theorem blockStatements_viable (below : ViableBelow tokens) (lead : List Token) :
    Confined .blockStatements
      (Blocks endLine lead (EndsIn .rightBrace fun ts => ∃ ss, Statements ts ss))
      depth endLine tokens := by
  rw [Reading.blockStatements_eq]
  cases tokens with
  | nil =>
    exact .look_nil (.blockNext lead (fun _ => trivial) [.rightBrace] fun line =>
      ⟨[], _, rfl, rfl, _, .nil⟩)
  | cons t us =>
    have hstmt : ∀ lead, Confined .stmt (Blocks endLine lead fun ts => ∃ s, Statement ts s)
      depth endLine (t :: us) := fun lead => stmt_viable below lead nofun
    refine .look_cons ?_
    split
    · next hbrace => exact .skip (convertible_of_kind hbrace (by decide)) (.done [])
    · refine .andThen (.resume lead [] [.rightBrace] (hstmt _) (fun _ => rfl) ?_) ?_
      · rintro line ts ⟨s, hs⟩
        exact endsIn_concat rfl ⟨_, .last hs⟩
      · intro s ts rest htokens hs
        have hlt : rest.length < (t :: us).length := by
          have hpos := (Parsed.of_map_pair hs).1
          rw [htokens]
          exact hpos
        refine .andThen (((below rest hlt).blockStatements (lead ++ ts)).imp ?_) fun _ _ => .done _
        rintro e vs ws rfl hblocks
        refine hblocks.extend (Resumes.behind_stmt ?_ ?_ (htokens ▸ hstmt lead) hs)
        · rintro tokens _ hterminated ⟨vs, close, rfl, hclose, ss, hss⟩
          obtain ⟨us, rfl, hus⟩ := hterminated.statements hss rfl
          exact endsIn_concat hclose ⟨_, hus⟩
        · intro ts hss
          exact ⟨[.rightBrace], fun line => endsIn_concat rfl ⟨_, hss⟩⟩

/-- What the functions of the parser reject in any tokens is the first token that does not go on
with anything. -/
theorem viable (tokens : List Token) : Viable tokens := by
  have below : ViableBelow tokens := fun us _ => viable us
  exact ⟨expr_viable below, continuations_viable below, continuation_viable below,
    alternative_viable below, exprList_viable below, moreExprs_viable below, block_viable below,
    blockStatements_viable below, stmt_viable below⟩
termination_by tokens.length

/-- A program that is broken off can be finished. -/
theorem statements_viable (lead : List Token) {tokens : List Token} :
    Confined .statements (Blocks endLine lead fun ts => ∃ ss, Statements ts ss)
      depth endLine tokens := by
  rw [Reading.statements_eq]
  match tokens with
  | [] => exact .look_nil (.done [])
  | t :: us =>
    have hstmt : ∀ lead, Confined .stmt (Blocks endLine lead fun ts => ∃ s, Statement ts s)
      depth endLine (t :: us) := fun lead => (viable _).stmt lead nofun
    refine .look_cons (.andThen (.resume lead [] [] (hstmt _) (fun _ => rfl) ?_) ?_)
    · rintro line ts ⟨s, hs⟩
      rw [List.map_nil, List.append_nil]
      exact ⟨_, .last hs⟩
    · intro s ts rest htokens hs
      have hlt : rest.length < (t :: us).length := by
        have hpos := (Parsed.of_map_pair hs).1
        rw [htokens]
        exact hpos
      refine .andThen ((statements_viable (lead ++ ts)).imp ?_) fun _ _ => .done _
      rintro e vs ws rfl hblocks
      refine hblocks.extend (Resumes.behind_stmt ?_ ?_ (htokens ▸ hstmt lead) hs)
      · rintro tokens rest hterminated ⟨ss, hss⟩
        obtain ⟨us, rfl, hus⟩ := hterminated.statements hss (List.append_nil _).symm
        rw [List.append_nil]
        exact ⟨_, hus⟩
      · intro ts hss
        exact ⟨[], fun line => by rw [List.map_nil, List.append_nil]; exact ⟨_, hss⟩⟩
termination_by tokens.length
decreasing_by exact hlt

end Functions

end Surface.Parser

/-- With more depth a text is read as it is with less, unless it was the depth that was missing. -/
theorem Surface.parse_of_le {depth depth' : Depth} (hle : depth ≤ depth') (source : String) :
    (∃ line, parse depth source = .error (.rejected ⟨.tooDeep, line⟩)) ∨
      parse depth' source = parse depth source := by
  cases h : parse depth source with
  | ok tree =>
    obtain ⟨ts, hts, _, hall⟩ := (Parser.statements_viable []).of_eq_ok
      (Parser.Reading.statements_eq_ok_iff.mpr h)
    have hread := hall hle (.refl _ [])
    rw [← hts] at hread
    exact .inr (Parser.Reading.statements_eq_ok_iff.mp hread)
  | error failure =>
    by_cases hdeep : ∃ line, failure = .rejected ⟨.tooDeep, line⟩
    · obtain ⟨line, rfl⟩ := hdeep
      exact .inl ⟨line, rfl⟩
    · obtain ⟨ts, us, hts, _, _, hall⟩ := (Parser.statements_viable []).of_eq_error
        (Parser.Reading.statements_eq_error_iff.mpr h)
      have hread := hall ⟨hle, fun hline => absurd hline hdeep⟩ (.refl _ us)
      rw [← hts] at hread
      exact .inr (Parser.Reading.statements_eq_error_iff.mp hread)

end EtherLang
