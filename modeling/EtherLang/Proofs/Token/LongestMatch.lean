import EtherLang.Proofs.Token.Joining

/-!
# Scanning by longest match

The grammar of tokens, written down without the scanner but for its classes of characters: a token
is a run of digits, a word, one of the operators of two characters or a single character, and its
kind follows from its text. Between tokens stand gaps, which are made of blanks and of comments that
extend up to the next line feed or to the end of the text.

Scanning cuts a text into gaps and tokens without losing a character. Every token is the longest
text of the grammar that stands at its place, and its line is counted by the line feeds before it.
Reading token by token gives the same tokens, and behind the last of them the end of the input as
often as it is asked for.
-/

namespace EtherLang

/-- The texts that the grammar of tokens knows. -/
inductive IsLexeme : List Char → Prop
  | digits {cs : List Char} : cs ≠ [] → cs.all Char.isDigit = true → IsLexeme cs
  | word {c : Char} {cs : List Char} :
    isWordStart c = true → cs.all isWordChar = true → IsLexeme (c :: cs)
  | equal : IsLexeme ['=', '=']
  | notEqual : IsLexeme ['!', '=']
  | arrow : IsLexeme ['-', '>']
  | char (c : Char) : IsLexeme [c]

/-- The words that are no identifiers, with their kinds. -/
def keywordKinds : List (String × TokenKind) :=
  [("var", .kwVar), ("return", .kwReturn), ("true", .kwTrue), ("false", .kwFalse), ("if", .kwIf),
    ("else", .kwElse)]

/-- The operators and the punctuation, with their kinds. -/
def signKinds : List (String × TokenKind) :=
  [("=", .assign), ("+", .plus), ("-", .minus), ("*", .star), ("/", .slash), ("!", .bang),
    ("->", .arrow), ("==", .equal), ("!=", .notEqual), (",", .comma), (";", .semicolon),
    ("(", .leftParen), (")", .rightParen), ("\x7b", .leftBrace), ("\x7d", .rightBrace),
    ("[", .leftBracket), ("]", .rightBracket), ("|", .bar)]

/-- The kind that a token has by its text: what begins with a digit is a number, other words are
identifiers where they are no keywords, and all else that is no sign is illegal. -/
def kindOf : List Char → TokenKind
  | [] => .illegal
  | c :: cs =>
    if c.isDigit then .integer
    else if isWordStart c then (keywordKinds.lookup (String.ofList (c :: cs))).getD .ident
    else (signKinds.lookup (String.ofList (c :: cs))).getD .illegal

/-- The text is a gap before the text that follows: blanks, and comments which extend up to the next
line feed or to the end. -/
inductive IsGap (after : List Char) : List Char → Prop
  | nil : IsGap after []
  | blank {c : Char} {gap : List Char} : isSpace c = true → IsGap after gap → IsGap after (c :: gap)
  | comment {comment gap : List Char} :
    '\n' ∉ comment → (∀ c ∈ (gap ++ after).head?, c = '\n') → IsGap after gap →
    IsGap after ('#' :: (comment ++ gap))

/-- The text is a token at the place where it stands before the rest: it is one of the grammar, it
begins no gap, and nothing longer that stands there is one of the grammar. -/
structure IsLongest (text rest : List Char) : Prop where
  lexeme : IsLexeme text
  apart : ∀ c ∈ text.head?, isSpace c = false ∧ c ≠ '#'
  longest : ∀ other, IsLexeme other → other <+: text ++ rest → other.length ≤ text.length

/-- A token with the gap before it. -/
structure Piece where
  gap : List Char
  token : Token

/-- The text that pieces are cut from. -/
def spell (pieces : List Piece) : List Char :=
  pieces.flatMap fun piece => piece.gap ++ piece.token.text.toList

/-- The piece is cut from a text that begins on the line, with so much before it and after it. -/
structure Piece.IsCut (line : Nat) (before : List Char) (piece : Piece) (after : List Char) :
    Prop where
  gap : IsGap (piece.token.text.toList ++ after) piece.gap
  longest : IsLongest piece.token.text.toList after
  kind : piece.token.kind = kindOf piece.token.text.toList
  line : piece.token.line = line + (before ++ piece.gap).count '\n'

/-- The text, which begins on the line, is cut into the pieces and a last gap. -/
structure IsCutInto (line : Nat) (cs : List Char) (pieces : List Piece) (last : List Char) :
    Prop where
  text : cs = spell pieces ++ last
  gap : IsGap [] last
  cut : ∀ before piece after, pieces = before ++ piece :: after →
    piece.IsCut line (spell before) (spell after ++ last)

section Gap

variable {c : Char} {cs gap rest after : List Char}

/-- The text is the rest of a comment, if it begins inside one, and then a gap. -/
def IsGapFrom (after : List Char) : (inComment : Bool) → List Char → Prop
  | false, gap => IsGap after gap
  | true, text => ∃ comment gap, text = comment ++ gap ∧ '\n' ∉ comment ∧
      (∀ c ∈ (gap ++ after).head?, c = '\n') ∧ IsGap after gap

/-- A comment is opened, or goes on. -/
theorem IsGapFrom.hash (h : IsGapFrom after true gap) (inComment : Bool) :
    IsGapFrom after inComment ('#' :: gap) := by
  obtain ⟨comment, blank, rfl, hfree, hend, hblank⟩ := h
  cases inComment with
  | false => exact .comment hfree hend hblank
  | true => exact ⟨'#' :: comment, blank, rfl, by simpa using hfree, hend, hblank⟩

/-- A comment goes on up to a line feed. -/
theorem IsGapFrom.cons_comment (h : IsGapFrom after (c != '\n') gap) :
    IsGapFrom after true (c :: gap) := by
  by_cases hc : c = '\n'
  · subst hc
    have hgap : IsGap after gap := h
    exact ⟨[], '\n' :: gap, rfl, nofun, by simp, .blank rfl hgap⟩
  · rw [bne_iff_ne.mpr hc] at h
    obtain ⟨comment, blank, rfl, hfree, hend, hblank⟩ := h
    have hfree' : '\n' ∉ c :: comment := by
      rw [List.mem_cons, not_or]
      exact ⟨Ne.symm hc, hfree⟩
    exact ⟨c :: comment, blank, rfl, hfree', hend, hblank⟩

/-- What is split off before a token is a gap. -/
theorem isGapFrom_splitGap (inComment : Bool) (cs : List Char) :
    IsGapFrom (splitGap inComment cs).2 inComment (splitGap inComment cs).1 := by
  induction cs generalizing inComment with
  | nil =>
    cases inComment with
    | false => exact .nil
    | true => exact ⟨[], [], rfl, nofun, nofun, .nil⟩
  | cons c cs ih =>
    by_cases hc : (inComment || isSpace c || c == '#') = true
    · rw [splitGap, if_pos hc]
      by_cases hhash : c = '#'
      · subst hhash
        exact IsGapFrom.hash (ih true) inComment
      · have hopen : (c == '#') = false := beq_false_of_ne hhash
        cases inComment with
        | true =>
          rw [hopen, Bool.false_or, Bool.true_and]
          exact (ih _).cons_comment
        | false =>
          rw [hopen, Bool.false_or, Bool.false_and]
          have hspace : isSpace c = true := by simpa [hopen] using hc
          exact .blank hspace (ih false)
    · rw [splitGap, if_neg hc]
      simp only [Bool.or_eq_true, not_or, Bool.not_eq_true] at hc
      rw [hc.1.1]
      exact .nil

/-- The text before a token is a gap. -/
theorem isGap_of_splitGap (h : splitGap false cs = (gap, rest)) : IsGap rest gap := by
  have hgap : IsGap (splitGap false cs).2 (splitGap false cs).1 := isGapFrom_splitGap false cs
  rwa [h] at hgap

end Gap

section Token

variable {c : Char} {cs other : List Char}

/-- What begins a text and is of one class is no longer than the run of the class. -/
theorem length_le_takeWhile {p : Char → Bool} (hother : other.all p = true) (h : other <+: cs) :
    other.length ≤ (cs.takeWhile p).length := by
  obtain ⟨rest, rfl⟩ := h
  rw [List.takeWhile_append_of_pos (List.all_eq_true.mp hother), List.length_append]
  exact Nat.le_add_right _ _

/-- The operators of two characters. -/
theorem cases_of_pairKind? {d : Char} {kind : TokenKind} (h : pairKind? c d = some kind) :
    (c = '=' ∧ d = '=' ∧ kind = .equal) ∨ (c = '!' ∧ d = '=' ∧ kind = .notEqual) ∨
      (c = '-' ∧ d = '>' ∧ kind = .arrow) := by
  unfold pairKind? at h
  simp only [Bool.and_eq_true, beq_iff_eq] at h
  grind

/-- An operator of two characters is one of the grammar. -/
theorem isLexeme_of_pairKind? {d : Char} {kind : TokenKind} (h : pairKind? c d = some kind) :
    IsLexeme [c, d] := by
  obtain ⟨rfl, rfl, -⟩ | ⟨rfl, rfl, -⟩ | ⟨rfl, rfl, -⟩ := cases_of_pairKind? h
  · exact .equal
  · exact .notEqual
  · exact .arrow

/-- The first character of an operator of two characters is no digit and begins no word. -/
theorem isSymbol_of_pairKind? {d : Char} {kind : TokenKind} (h : pairKind? c d = some kind) :
    c.isDigit = false ∧ isWordStart c = false := by
  obtain ⟨rfl, -⟩ | ⟨rfl, -⟩ | ⟨rfl, -⟩ := cases_of_pairKind? h <;> decide

/-- What a text of the grammar can be, by its first character. -/
theorem IsLexeme.cases_head (h : IsLexeme (c :: cs)) :
    (c.isDigit = true ∧ cs.all Char.isDigit = true) ∨
      (isWordStart c = true ∧ cs.all isWordChar = true) ∨
      (∃ d kind, cs = [d] ∧ pairKind? c d = some kind) ∨ cs = [] := by
  cases h with
  | digits _ hall => exact .inl (by simpa using hall)
  | word hc hall => exact .inr (.inl ⟨hc, hall⟩)
  | equal | notEqual | arrow => exact .inr (.inr (.inl ⟨_, _, rfl, rfl⟩))
  | char => exact .inr (.inr (.inr rfl))

/-- The second character of an operator of two characters begins no gap. -/
theorem apart_of_pairKind? {d : Char} {kind : TokenKind} (h : pairKind? c d = some kind) :
    isSpace d = false ∧ d ≠ '#' := by
  obtain ⟨-, rfl, -⟩ | ⟨-, rfl, -⟩ | ⟨-, rfl, -⟩ := cases_of_pairKind? h <;> decide

/-- Behind its first character a text of the grammar has none that begins a gap. -/
theorem IsLexeme.apart_of_mem_tail {d : Char} (h : IsLexeme (c :: cs)) (hd : d ∈ cs) :
    isSpace d = false ∧ d ≠ '#' := by
  obtain ⟨_, hall⟩ | ⟨_, hall⟩ | ⟨e, kind, rfl, hpair⟩ | rfl := h.cases_head
  · have hdigit := List.all_eq_true.mp hall d hd
    exact isWordChar_not_gap (by rw [isWordChar, hdigit, Bool.or_true])
  · exact isWordChar_not_gap (List.all_eq_true.mp hall d hd)
  · obtain rfl := List.mem_singleton.mp hd
    exact apart_of_pairKind? hpair
  · cases hd

/-- No text of the grammar is empty. -/
theorem IsLexeme.ne_nil (h : IsLexeme cs) : cs ≠ [] := by
  cases h with
  | digits hne _ => exact hne
  | word | equal | notEqual | arrow | char => exact List.cons_ne_nil _ _

/-- The kind of a word is the one it is listed with. -/
theorem wordKind_eq_lookup (word : String) :
    wordKind word = (keywordKinds.lookup word).getD .ident := by
  unfold wordKind
  split
  case h_7 =>
    have hnone : keywordKinds.lookup word = none := by
      rw [List.lookup_eq_none_iff]
      simp_all [keywordKinds]
    rw [hnone]
    rfl
  all_goals rfl

/-- The kind of a single character is the one it is listed with. -/
theorem charKind_eq_lookup (c : Char) :
    charKind c = (signKinds.lookup (String.ofList [c])).getD .illegal := by
  unfold charKind
  split
  case h_16 =>
    have hnone : signKinds.lookup (String.ofList [c]) = none := by
      rw [List.lookup_eq_none_iff]
      simp_all [signKinds, ← String.toList_inj]
    rw [hnone]
    rfl
  all_goals rfl

/-- The kind of an operator of two characters is the one it is listed with. -/
theorem lookup_of_pairKind? {d : Char} {kind : TokenKind} (h : pairKind? c d = some kind) :
    signKinds.lookup (String.ofList [c, d]) = some kind := by
  obtain ⟨rfl, rfl, rfl⟩ | ⟨rfl, rfl, rfl⟩ | ⟨rfl, rfl, rfl⟩ := cases_of_pairKind? h <;> rfl

/-- The text of a token tells its kind. -/
theorem kindOf_munch (c : Char) (cs : List Char) :
    kindOf (munch c cs).text = (munch c cs).kind := by
  rw [munch.eq_def]
  split
  · next hdigit => simp [kindOf, hdigit]
  · next hdigit =>
    split
    · next hstart => simp [kindOf, hdigit, hstart, wordKind_eq_lookup]
    · next hstart =>
      have hkind (ds : List Char) : kindOf (c :: ds) =
          (signKinds.lookup (String.ofList (c :: ds))).getD .illegal := by
        rw [kindOf, if_neg hdigit, if_neg hstart]
      split
      · exact (hkind []).trans (charKind_eq_lookup c).symm
      · split
        · next hpair => rw [hkind, lookup_of_pairKind? hpair, Option.getD_some]
        · exact (hkind []).trans (charKind_eq_lookup c).symm

/-- A token is one of the grammar. -/
theorem isLexeme_munch (c : Char) (cs : List Char) : IsLexeme (munch c cs).text := by
  rw [munch.eq_def]
  split
  · next hdigit => exact .digits (List.cons_ne_nil _ _) (by simp [hdigit, List.all_takeWhile])
  · split
    · next hstart => exact .word hstart List.all_takeWhile
    · split
      · exact .char c
      · split
        · next hpair => exact isLexeme_of_pairKind? hpair
        · exact .char c

/-- Nothing longer that stands at the place of a token is one of the grammar. -/
theorem length_le_munch (hother : IsLexeme other) (h : other <+: c :: cs) :
    other.length ≤ (munch c cs).text.length := by
  cases other with
  | nil => exact Nat.zero_le _
  | cons d ds =>
    obtain ⟨rfl, hds⟩ := List.cons_prefix_cons.mp h
    rw [munch.eq_def]
    obtain ⟨hdigit, hall⟩ | ⟨hstart, hall⟩ | ⟨e, kind, rfl, hpair⟩ | rfl := hother.cases_head
    · rw [if_pos hdigit]
      exact Nat.succ_le_succ (length_le_takeWhile hall hds)
    · have hdigit := isDigit_eq_false_of_isWordStart hstart
      rw [if_neg (by simp [hdigit]), if_pos hstart]
      exact Nat.succ_le_succ (length_le_takeWhile hall hds)
    · obtain ⟨hdigit, hstart⟩ := isSymbol_of_pairKind? hpair
      obtain ⟨rest, rfl⟩ := hds
      simp [hdigit, hstart, hpair]
    · rw [← munch.eq_def, ← munch_text]
      exact Nat.succ_le_succ (Nat.zero_le _)

/-- What is taken behind a gap is the longest token there. -/
theorem isLongest_munch (hapart : isSpace c = false ∧ c ≠ '#') :
    IsLongest (munch c cs).text (munch c cs).rest where
  lexeme := isLexeme_munch c cs
  apart := by
    intro d hd
    rw [← munch_text] at hd
    cases hd
    exact hapart
  longest other hother h := by
    rw [munch_append] at h
    exact length_le_munch hother h

/-- No token contains a blank. -/
theorem IsLongest.isSpace_eq_false {text rest : List Char} (h : IsLongest text rest) {d : Char}
    (hd : d ∈ text) : isSpace d = false := by
  cases text with
  | nil => cases hd
  | cons c cs =>
    obtain rfl | hd := List.mem_cons.mp hd
    · exact (h.apart d rfl).1
    · exact (h.lexeme.apart_of_mem_tail hd).1

/-- No token contains a line feed. -/
theorem IsLongest.newline_notMem {text rest : List Char} (h : IsLongest text rest) :
    '\n' ∉ text := by
  intro hmem
  cases h.isSpace_eq_false hmem

end Token

section Cut

variable {line : Nat} {cs last : List Char} {pieces : List Piece}

/-- The text of a first piece stands before that of the others. -/
theorem spell_cons (piece : Piece) (pieces : List Piece) :
    spell (piece :: pieces) = piece.gap ++ piece.token.text.toList ++ spell pieces :=
  List.flatMap_cons

/-- A text without tokens is a gap. -/
theorem isCutInto_nil (h : IsGap [] last) : IsCutInto line last [] last where
  text := rfl
  gap := h
  cut before piece after hsplit := by simp at hsplit

/-- A piece before a text that is cut into pieces. -/
theorem IsCutInto.cons {piece : Piece}
    (h : IsCutInto (line + piece.gap.count '\n') cs pieces last) (hpiece : piece.IsCut line [] cs)
    (hline : '\n' ∉ piece.token.text.toList) :
    IsCutInto line (piece.gap ++ piece.token.text.toList ++ cs) (piece :: pieces) last where
  text := by rw [spell_cons, List.append_assoc _ _ last, ← h.text]
  gap := h.gap
  cut before other after hsplit := by
    cases before with
    | nil =>
      obtain ⟨rfl, rfl⟩ := List.cons.inj hsplit
      rw [← h.text]
      exact hpiece
    | cons first before =>
      obtain ⟨rfl, hpieces⟩ := List.cons.inj hsplit
      have hcut := h.cut before other after hpieces
      refine ⟨hcut.gap, hcut.longest, hcut.kind, ?_⟩
      rw [hcut.line, spell_cons]
      simp only [List.count_append, List.count_eq_zero_of_not_mem hline]
      omega

/-- Pieces whose tokens are not empty take up at least one character each. -/
theorem length_le_spell (h : ∀ piece ∈ pieces, piece.token.text.toList ≠ []) :
    pieces.length ≤ (spell pieces).length := by
  induction pieces with
  | nil => exact Nat.zero_le _
  | cons piece pieces ih =>
    obtain ⟨hpiece, hpieces⟩ := List.forall_mem_cons.mp h
    have hpos := List.length_pos_iff.mpr hpiece
    have hrest := ih hpieces
    simp only [spell_cons, List.length_cons, List.length_append]
    omega

/-- A text has at least as many characters as tokens. -/
theorem IsCutInto.length_le (h : IsCutInto line cs pieces last) : pieces.length ≤ cs.length := by
  have hspell : pieces.length ≤ (spell pieces).length := by
    refine length_le_spell fun piece hpiece => ?_
    obtain ⟨before, after, hsplit⟩ := List.append_of_mem hpiece
    exact (h.cut before piece after hsplit).longest.lexeme.ne_nil
  rw [h.text, List.length_append]
  exact Nat.le_add_right_of_le hspell

/-- Scanning cuts a text into pieces, whose tokens it returns. -/
theorem exists_isCutInto (line : Nat) (cs : List Char) :
    ∃ pieces last, IsCutInto line cs pieces last ∧
      (scanFrom line cs).tokens = pieces.map Piece.token ∧
      (scanFrom line cs).endLine = line + cs.count '\n' := by
  fun_induction scanFrom line cs with
  | case1 line cs gap hgap =>
    have hcs : gap = cs := eq_of_splitGap hgap
    subst hcs
    exact ⟨[], gap, isCutInto_nil (isGap_of_splitGap hgap), rfl, rfl⟩
  | case2 line cs gap c rest hgap lexeme after ih =>
    obtain ⟨pieces, last, hcut, htokens, hend⟩ := ih
    have hapart := apart_of_splitGap hgap
    have hlongest : IsLongest lexeme.text lexeme.rest := isLongest_munch hapart
    have hline : '\n' ∉ lexeme.text := hlongest.newline_notMem
    have hcs : gap ++ lexeme.text ++ lexeme.rest = cs := append_of_splitGap hgap
    let piece : Piece :=
      ⟨gap, ⟨lexeme.kind, String.ofList lexeme.text, line + gap.count '\n'⟩⟩
    have htext : piece.token.text.toList = lexeme.text := String.toList_ofList ..
    have hpiece : piece.IsCut line [] lexeme.rest := by
      refine ⟨?_, ?_, ?_, rfl⟩
      · rw [htext, munch_append]
        exact isGap_of_splitGap hgap
      · rw [htext]
        exact hlongest
      · rw [htext, kindOf_munch]
    have hwhole := hcut.cons hpiece (htext ▸ hline)
    rw [htext, hcs] at hwhole
    refine ⟨piece :: pieces, last, hwhole, congrArg (piece.token :: ·) htokens, ?_⟩
    change after.endLine = _
    have hcount : lexeme.text.count '\n' = 0 := List.count_eq_zero_of_not_mem hline
    rw [hend, ← hcs, List.count_append, List.count_append, hcount]
    omega

/-- A text ends as many lines further down as it has line feeds. -/
theorem endLine_scanFrom (line : Nat) (cs : List Char) :
    (scanFrom line cs).endLine = line + cs.count '\n' := by
  obtain ⟨_, _, _, _, hend⟩ := exists_isCutInto line cs
  exact hend

end Cut

namespace Cursor

section Next

variable {c : Char} {cs gap rest : List Char}

/-- Behind the last gap stands the end of the input. -/
theorem next_of_gap (h : splitGap false cs = (gap, [])) (pos line : Nat) :
    (Cursor.mk cs pos line).next =
      (Token.endOfInput (line + gap.count '\n'),
        ⟨[], pos + gap.length, line + gap.count '\n'⟩) := by
  rw [next, h]

/-- Behind a gap the longest token is read. -/
theorem next_of_gap_cons (h : splitGap false cs = (gap, c :: rest)) (pos line : Nat) :
    (Cursor.mk cs pos line).next =
      (⟨(munch c rest).kind, String.ofList (munch c rest).text, line + gap.count '\n'⟩,
        ⟨(munch c rest).rest, pos + gap.length + (munch c rest).text.length,
          line + gap.count '\n'⟩) := by
  rw [next, h]

end Next

/-- After the first token reading goes on behind it. -/
theorem pull_succ (c : Cursor) (count : Nat) :
    c.pull (count + 1) = c.next :: c.next.2.pull count :=
  rfl

/-- At the end of the text reading changes nothing any more. -/
theorem pull_end (pos line count : Nat) :
    (Cursor.mk [] pos line).pull count =
      List.replicate count (Token.endOfInput line, ⟨[], pos, line⟩) := by
  induction count with
  | zero => rfl
  | succ count ih => exact congrArg _ ih

/-- Reading token by token gives the tokens of the text and then the end of the input again and
again, at the place where the text ends. -/
theorem pull_add (cs : List Char) (pos line count : Nat) :
    ((Cursor.mk cs pos line).pull (scanFrom line cs).tokens.length).map Prod.fst =
        (scanFrom line cs).tokens ∧
      (Cursor.mk cs pos line).pull ((scanFrom line cs).tokens.length + count) =
        (Cursor.mk cs pos line).pull (scanFrom line cs).tokens.length ++
          List.replicate count (Token.endOfInput (scanFrom line cs).endLine,
            ⟨[], pos + cs.length, (scanFrom line cs).endLine⟩) := by
  fun_induction scanFrom line cs generalizing pos with
  | case1 line cs gap hgap =>
    have hcs : gap = cs := eq_of_splitGap hgap
    subst hcs
    refine ⟨rfl, ?_⟩
    cases count with
    | zero => rfl
    | succ count =>
      rw [List.length_nil, Nat.zero_add, pull_succ, next_of_gap hgap, pull_end]
      rfl
  | case2 line cs gap c rest hgap lexeme after ih =>
    have hnext := next_of_gap_cons hgap pos line
    have hcs : gap ++ lexeme.text ++ lexeme.rest = cs := append_of_splitGap hgap
    have hlength : pos + cs.length =
        pos + gap.length + lexeme.text.length + lexeme.rest.length := by
      rw [← hcs, List.length_append, List.length_append]
      omega
    obtain ⟨htokens, hpull⟩ := ih (pos + gap.length + lexeme.text.length)
    rw [List.length_cons, Nat.add_right_comm, pull_succ, pull_succ, hnext]
    exact ⟨congrArg _ htokens, by rw [hpull, hlength]; rfl⟩

end Cursor

/-- Scanning cuts a text into gaps and tokens: together they make up the text, each token is the
longest one that stands at its place and has the kind that its text tells, and lines count the line
feeds before a token and before the end. So there are at most as many tokens as characters. Reading
token by token gives these tokens, and every further reading gives the end of the input and stays at
the end of the text. -/
theorem tokenize_isCutInto (source : String) :
    ∃ pieces last, IsCutInto 1 source.toList pieces last ∧
      tokenize source =
        pieces.map Piece.token ++ [Token.endOfInput (1 + source.toList.count '\n')] ∧
      pieces.length ≤ source.length ∧
      ((Cursor.start source).pull pieces.length).map Prod.fst = pieces.map Piece.token ∧
      ∀ count, (Cursor.start source).pull (pieces.length + count) =
        (Cursor.start source).pull pieces.length ++
          List.replicate count (Token.endOfInput (1 + source.toList.count '\n'),
            ⟨[], source.length, 1 + source.toList.count '\n'⟩) := by
  obtain ⟨pieces, last, hcut, htokens, hend⟩ := exists_isCutInto 1 source.toList
  have hlength : pieces.length = (scanFrom 1 source.toList).tokens.length := by
    rw [htokens, List.length_map]
  have hpull := Cursor.pull_add source.toList 0 1
  rw [hend, ← hlength, htokens, String.length_toList] at hpull
  refine ⟨pieces, last, hcut, ?_, ?_, (hpull 0).1, fun count => ?_⟩
  · rw [tokenize, TokenStream.toList, tokenStream, htokens, hend]
  · rw [← String.length_toList]
    exact hcut.length_le
  · rw [Cursor.start, (hpull count).2, Nat.zero_add]

end EtherLang
