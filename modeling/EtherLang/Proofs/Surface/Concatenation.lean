import EtherLang.Proofs.Surface.Layout
import EtherLang.Proofs.Surface.Viability
import EtherLang.Proofs.Token.Joining

/-!
# Programs one after the other

A text whose last token is a semicolon can be followed by any other text. What it is read as, the
joined text begins with, and what it is rejected for, the joined text is rejected for, unless it is
that the text ended too early. A semicolon is never the last token of anything but a whole
statement, so the second text begins with a new one.
-/

namespace EtherLang.Surface

namespace Grammar

open Surface.Parser (Open open_concat)

variable {ts : List Token}

/-- A block ends in a brace. -/
theorem Braces.open_tokens {body : Block} (h : Braces ts body) : Open ts := by
  cases h with
  | @mk us t close _ _ _ hclose => exact open_concat hclose (by decide) (t :: us)

/-- No expression ends in a semicolon. -/
theorem Derives.open_tokens {s : Stratum} {ts : List Token} {e : Expr} (h : Derives s ts e) :
    Open ts := by
  match h with
  | @Derives.arrow ls _ t _ _ _ _ hr | @Derives.binary _ ls _ t _ _ _ _ hr =>
    rw [List.append_cons]
    exact hr.open_tokens.append (ls ++ [t])
  | @Derives.unary _ _ t _ _ he => exact he.open_tokens.append [t]
  | @Derives.call cs us t _ _ _ _ _ _ hclose | @Derives.index cs us t _ _ _ _ _ _ hclose =>
    exact (open_concat hclose (by decide) (t :: us)).append cs
  | .integer ht _ | .kwTrue ht | .kwFalse ht | .ident ht => exact open_concat ht (by decide) []
  | @Derives.group us t _ _ _ _ hclose | @Derives.array us t _ _ _ _ hclose =>
    exact open_concat hclose (by decide) (t :: us)
  | @Derives.function ps _ t close _ _ _ _ _ hbody =>
    have hopen := hbody.open_tokens.append (t :: (ps ++ [close]))
    simpa using hopen
  | @Derives.cond cs _ t _ _ _ _ hconsequence => exact hconsequence.open_tokens.append (t :: cs)
  | @Derives.condElse cs bs _ t u _ _ _ _ _ _ _ halternative =>
    have hopen := halternative.open_tokens.append (t :: (cs ++ (bs ++ [u])))
    simpa using hopen
  | .climb _ he => exact he.open_tokens

/-- No statement ends in a semicolon before its end. -/
theorem Statement.open_tokens {s : Stmt} (h : Statement ts s) : Open ts := by
  cases h with
  | @var t name equals _ _ _ _ _ he => exact he.open_tokens.append [t, name, equals]
  | @ret t _ _ _ he => exact he.open_tokens.append [t]
  | expr he => exact he.open_tokens

end Grammar

namespace Parser

open Grammar

variable {depth : Depth} {endLine : Nat} {ts us : List Token}

/-- The tokens are none, or the last one is a semicolon. -/
def ClosedOff (ts : List Token) : Prop :=
  ∀ t ∈ ts.getLast?, t.kind = .semicolon

instance (ts : List Token) : Decidable (ClosedOff ts) :=
  inferInstanceAs (Decidable (∀ t ∈ ts.getLast?, t.kind = .semicolon))

/-- The last part of tokens that are closed off is closed off. -/
theorem ClosedOff.right (h : ClosedOff (ts ++ us)) : ClosedOff us := by
  intro t ht
  refine h t ?_
  rw [List.getLast?_append, ht]
  rfl

/-- What is closed off ends in no other token. -/
theorem ClosedOff.not_open (h : ClosedOff ts) : ¬Open ts := by
  rintro ⟨t, ht, hkind⟩
  exact hkind (h t ht)

/-- A semicolon ends a statement, whatever stands behind it. -/
theorem terminated_semicolon {t : Token} (ht : t.kind = .semicolon) (s : Stmt) :
    Reading.terminated s depth endLine (t :: us) = .ok (s, us) := by
  rw [Reading.terminated, Reading.terminator_eq, Reading.andThen, Reading.look, if_pos ht]
  rfl

/-- A statement that reaches to the end of tokens that are closed off is read before any others. -/
theorem stmt_append_of_closedOff {s : Stmt} (h : Reading.stmt depth endLine ts = .ok (s, []))
    (hts : ClosedOff ts) (endLine' : Nat) (us : List Token) :
    Reading.stmt depth endLine' (ts ++ us) = .ok (s, us) := by
  have hne : ts ≠ [] := List.ne_nil_of_length_pos (Parsed.of_map_pair h).1
  have hbody : Confined .stmtBody (Blocks endLine [] fun ts => ∃ s, Statement ts s)
      depth endLine ts := stmtBody_viable (fun us _ => viable us) [] hne
  rw [Reading.stmt_eq] at h ⊢
  obtain ⟨body, rest, hread, hend⟩ := Reading.andThen_eq_ok h
  obtain ⟨_, rest', hterminator, hdone⟩ := Reading.andThen_eq_ok hend
  cases hdone
  obtain ⟨hle, hterminator⟩ := Remaining.of_map_pair hterminator
  obtain ⟨t, ht, rfl⟩ | ⟨rfl, _⟩ := terminator_sound hterminator
  · -- The semicolon is the token that the body stops at.
    obtain ⟨vs, rfl, _, hall⟩ := hbody.of_eq_ok hread
    have hread' := hall Depth.le_rfl (.cons t [] us : SameNext endLine endLine' _ _)
    rw [List.append_assoc, List.singleton_append, Reading.andThen, hread']
    exact terminated_semicolon ht s
  · obtain ⟨vs, rfl, hs⟩ := Reading.stmtBody_sound hread
    rw [List.append_nil] at hts
    exact absurd hs.open_tokens hts.not_open

/-- A statement at the head of tokens that are closed off is read before any others. -/
theorem stmt_append {s : Stmt} {rest : List Token}
    (h : Reading.stmt depth endLine ts = .ok (s, rest)) (hts : ClosedOff ts) (endLine' : Nat)
    (us : List Token) : Reading.stmt depth endLine' (ts ++ us) = .ok (s, rest ++ us) := by
  cases rest with
  | nil => exact stmt_append_of_closedOff h hts endLine' us
  | cons t rest =>
    have hlt := (Parsed.of_map_pair h).1
    have hstmt : Confined .stmt (Blocks endLine [] fun ts => ∃ s, Statement ts s)
        depth endLine ts := (viable ts).stmt [] (List.ne_nil_of_length_pos (by omega))
    obtain ⟨vs, rfl, _, hall⟩ := hstmt.of_eq_ok h
    rw [List.append_assoc]
    exact hall Depth.le_rfl (.cons t rest (rest ++ us))

/-- All statements of two lists of tokens are those of the one and those of the other, if the first
is closed off. -/
theorem statements_append {ss : List Stmt} (endLine' : Nat) (us : List Token) {ts : List Token}
    (h : statements endLine depth ts = .ok ss) (hts : ClosedOff ts) :
    statements endLine' depth (ts ++ us) = (statements endLine' depth us).map (ss ++ ·) := by
  match ts with
  | [] =>
    rw [statements] at h
    cases h
    rw [List.nil_append]
    cases statements endLine' depth us <;> rfl
  | t :: rest =>
    rw [statements] at h
    obtain ⟨⟨first, rest₁, hlt₁⟩, hfirst, h⟩ := bind_eq_ok h
    obtain ⟨others, hothers, h⟩ := bind_eq_ok h
    cases h
    have hread : Reading.stmt depth endLine (t :: rest) = .ok (first, rest₁) := by
      rw [Reading.stmt, hfirst]
      rfl
    have hrest₁ : ClosedOff rest₁ := by
      obtain ⟨vs, hvs, _⟩ := (Reading.stmt_sound hread).statements .nil (List.nil_append _).symm
      rw [hvs] at hts
      exact hts.right
    have hread' : Reading.stmt depth endLine' (t :: (rest ++ us)) = .ok (first, rest₁ ++ us) :=
      stmt_append hread hts endLine' us
    obtain ⟨_, hfirst'⟩ := Parsed.of_map_pair hread'
    rw [List.cons_append, statements]
    simp only [hfirst', ok_bind]
    rw [statements_append endLine' us hothers hrest₁]
    cases statements endLine' depth us <;> rfl
termination_by ts.length
decreasing_by exact hlt₁

/-- Tokens that are closed off are rejected before any others as they are alone, unless it is for
their end. -/
theorem statements_append_of_error {e : ParseError}
    (h : statements endLine depth ts = .error (.rejected e)) (hts : ClosedOff ts)
    (hcause : ¬e.cause.AtEnd) (endLine' : Nat) (us : List Token) :
    statements endLine' depth (ts ++ us) = .error (.rejected e) := by
  have hread := Reading.statements_eq_error_iff.mpr h
  obtain ⟨vs, ws, rfl, _, hblocks, hall⟩ := (statements_viable []).of_eq_error hread
  cases ws with
  | nil =>
    rw [List.append_nil] at hts
    obtain hend | hopen := (hblocks e rfl).ending rfl
    · exact absurd hend hcause
    · exact absurd hopen hts.not_open
  | cons w ws =>
    have hread' := hall (ParseFailure.persists_self _ depth)
      (.cons w ws (ws ++ us) : SameNext endLine endLine' _ _)
    rw [← List.cons_append, ← List.append_assoc] at hread'
    exact Reading.statements_eq_error_iff.mp hread'

end Parser

open Surface.Parser

/-- The line on which a text begins shows in the lines of its tokens only. -/
theorem map_eraseLine_scanFrom (line line' : Nat) (cs : List Char) :
    (scanFrom line cs).tokens.map Token.eraseLine =
      (scanFrom line' cs).tokens.map Token.eraseLine := by
  fun_induction scanFrom line cs generalizing line' with
  | case1 line cs gap hgap => rw [scanFrom_of_gap hgap]
  | case2 line cs gap c rest hgap lexeme after ih =>
    rw [scanFrom_of_gap_cons hgap, List.map_cons, List.map_cons]
    exact congrArg _ (ih _)

section Join

variable {depth : Depth} {a : String}

/-- A text that is closed off and read is the beginning of what the text joined with another one is
read as; the rest is what the other one is read as, on later lines. -/
theorem parse_join {ss : List Stmt} (h : parse depth a = .ok ss)
    (ha : ClosedOff (tokenStream a).tokens) (b : String) :
    ∃ r, parse depth (a ++ "\n" ++ b) = r.map (ss ++ ·) ∧
      ReadAlike (fun ss ss' => eraseLinesStatements ss = eraseLinesStatements ss')
        r (parse depth b) := by
  have hjoin := tokenStream_append_newline a b
  let later := scanFrom ((tokenStream a).endLine + 1) b.toList
  refine ⟨statements later.endLine depth later.tokens, ?_, ?_⟩
  · rw [parse, hjoin]
    exact statements_append later.endLine later.tokens h ha
  · have hlater := statements_alike later.endLine depth later.tokens
    have hb := statements_alike (tokenStream b).endLine depth (tokenStream b).tokens
    rw [map_eraseLine_scanFrom _ 1 b.toList] at hlater
    exact hlater.of_common hb

/-- A text that is closed off and rejected is rejected for the same with any other text behind it,
unless it is for its end. -/
theorem parse_join_of_error {e : ParseError} (h : parse depth a = .error (.rejected e))
    (ha : ClosedOff (tokenStream a).tokens) (hcause : ¬e.cause.AtEnd) (b : String) :
    parse depth (a ++ "\n" ++ b) = .error (.rejected e) := by
  rw [parse, tokenStream_append_newline]
  exact statements_append_of_error h ha hcause _ _

end Join

end EtherLang.Surface
