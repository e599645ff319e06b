import EtherLang.Text.Decimal
import EtherLang.Token.Scanner

/-!
# Scanning a text piece by piece

A piece of text scans to its own tokens wherever it stands, provided that the text behind it does
not lengthen its last token. Words and numerals are lengthened by word characters only, and most
symbols by nothing, so a text can be scanned by rewriting its pieces one after the other.
-/

namespace EtherLang

/-- The words with a meaning of their own. -/
def keywords : List String :=
  ["var", "return", "true", "false", "if", "else"]

/-- Whether a text is a word: a letter or an underscore, then letters, digits and underscores. -/
def isWord (text : String) : Bool :=
  match text.toList with
  | [] => false
  | c :: cs => isWordStart c && cs.all isWordChar

/-- Whether a text is a word that may name something. -/
def isName (text : String) : Bool :=
  isWord text && !keywords.contains text

/-- The words that are no keywords are identifiers. -/
theorem wordKind_eq_ident_iff {word : String} :
    wordKind word = .ident ↔ word ∉ keywords := by
  unfold wordKind keywords
  split <;> simp_all

/-- What a name is made of. -/
theorem isName_iff {name : String} :
    isName name = true ↔ isWord name = true ∧ wordKind name = .ident := by
  rw [isName, wordKind_eq_ident_iff]
  simp

/-- The text does not lengthen a word or a numeral that it stands behind. -/
def Breaks (rest : List Char) : Prop :=
  ∀ c ∈ rest.head?, isWordChar c = false

/-- A token that is a word. -/
def wordToken (line : Nat) (word : String) : Token :=
  ⟨wordKind word, word, line⟩

/-- A token that is a single character. -/
def symbolToken (line : Nat) (c : Char) : Token :=
  ⟨charKind c, String.ofList [c], line⟩

/-- The characters that begin no gap, no word and no numeral. -/
def isSymbol (c : Char) : Bool :=
  !isSpace c && c != '#' && !isWordChar c

section Gap

variable {line : Nat} {cs rest gap : List Char} {c : Char}

/-- A text that is all gap has no tokens. -/
theorem scanFrom_of_gap (h : splitGap false cs = (gap, [])) :
    scanFrom line cs = ⟨[], line + gap.count '\n'⟩ := by
  rw [scanFrom]
  split
  · next heq =>
    rw [h] at heq
    cases heq
    rfl
  · next heq =>
    rw [h] at heq
    cases heq

/-- The empty text has no tokens. -/
theorem scanFrom_nil : (scanFrom line []).tokens = [] := by
  have hgap : splitGap false [] = ([], []) := rfl
  rw [scanFrom_of_gap hgap]

/-- Behind a gap stands the longest token. -/
theorem scanFrom_of_gap_cons (h : splitGap false cs = (gap, c :: rest)) :
    scanFrom line cs =
      ⟨⟨(munch c rest).kind, String.ofList (munch c rest).text, line + gap.count '\n'⟩ ::
          (scanFrom (line + gap.count '\n') (munch c rest).rest).tokens,
        (scanFrom (line + gap.count '\n') (munch c rest).rest).endLine⟩ := by
  rw [scanFrom]
  split
  · next heq =>
    rw [h] at heq
    cases heq
  · next heq =>
    rw [h] at heq
    cases heq
    rfl

/-- A text without tokens is a gap. -/
theorem eq_of_splitGap (h : splitGap false cs = (gap, [])) : gap = cs := by
  simpa only [h, List.append_nil] using splitGap_append false cs

/-- A gap, the token behind it and what follows make up the text. -/
theorem append_of_splitGap (h : splitGap false cs = (gap, c :: rest)) :
    gap ++ (munch c rest).text ++ (munch c rest).rest = cs := by
  rw [List.append_assoc, munch_append]
  simpa only [h] using splitGap_append false cs

/-- What stands behind a gap begins none. -/
theorem apart_of_splitGap {inComment : Bool} (h : splitGap inComment cs = (gap, c :: rest)) :
    isSpace c = false ∧ c ≠ '#' := by
  induction cs generalizing inComment gap with
  | nil => cases h
  | cons d cs ih =>
    rw [splitGap] at h
    split at h
    · exact ih (Prod.ext rfl (Prod.mk.inj h).2)
    · next hgap =>
      cases h
      simp only [Bool.or_eq_true, not_or, Bool.not_eq_true, beq_eq_false_iff_ne] at hgap
      exact ⟨hgap.1.2, hgap.2⟩

/-- No blank opens a comment. -/
theorem ne_hash_of_isSpace (hc : isSpace c = true) : (c == '#') = false := by
  rw [beq_eq_false_iff_ne]
  rintro rfl
  cases hc

/-- A blank lengthens the gap that stands behind it. -/
theorem splitGap_space (hc : isSpace c = true) (cs : List Char) :
    splitGap false (c :: cs) = (c :: (splitGap false cs).1, (splitGap false cs).2) := by
  rw [splitGap]
  simp [hc, ne_hash_of_isSpace hc]

/-- A blank is skipped; a line feed begins a new line. -/
theorem scanFrom_space (hc : isSpace c = true) :
    scanFrom line (c :: cs) = scanFrom (line + [c].count '\n') cs := by
  have hgap := splitGap_space hc cs
  have hcount : ∀ gap : List Char,
      line + (c :: gap).count '\n' = line + [c].count '\n' + gap.count '\n' := by
    intro gap
    rw [← List.singleton_append, List.count_append, Nat.add_assoc]
  match h : splitGap false cs with
  | (gap, []) =>
    rw [h] at hgap
    rw [scanFrom_of_gap hgap, scanFrom_of_gap h, hcount]
  | (gap, d :: rest) =>
    rw [h] at hgap
    rw [scanFrom_of_gap_cons hgap, scanFrom_of_gap_cons h, hcount]

/-- What begins no gap begins a token. -/
theorem scanFrom_munch (hspace : isSpace c = false) (hhash : c ≠ '#') :
    (scanFrom line (c :: cs)).tokens =
      ⟨(munch c cs).kind, String.ofList (munch c cs).text, line⟩ ::
        (scanFrom line (munch c cs).rest).tokens := by
  have hgap : splitGap false (c :: cs) = ([], c :: cs) := by
    rw [splitGap]
    simp [hspace, hhash]
  rw [scanFrom_of_gap_cons hgap]
  rfl

end Gap

section Pieces

variable {line : Nat} {rest : List Char}

/-- A run of characters of one class is taken up to the first that is not of the class. -/
theorem takeWhile_append_of_head {p : Char → Bool} {cs : List Char} (hcs : cs.all p = true)
    (hrest : ∀ c ∈ rest.head?, p c = false) :
    (cs ++ rest).takeWhile p = cs ∧ (cs ++ rest).dropWhile p = rest := by
  have hall : ∀ c ∈ cs, p c = true := List.all_eq_true.mp hcs
  rw [List.takeWhile_append_of_pos hall, List.dropWhile_append_of_pos hall]
  match rest with
  | [] => simp
  | c :: rest => simp [hrest c rfl]

/-- No word character is a blank or opens a comment. -/
theorem isWordChar_not_gap {c : Char} (hc : isWordChar c = true) :
    isSpace c = false ∧ c ≠ '#' := by
  constructor
  · rw [Bool.eq_false_iff]
    intro hspace
    simp only [isSpace, Bool.or_eq_true, beq_iff_eq] at hspace
    obtain ((rfl | rfl) | rfl) | rfl := hspace <;> cases hc
  · rintro rfl
    cases hc

/-- No digit begins a word. -/
theorem isDigit_eq_false_of_isWordStart {c : Char} (hc : isWordStart c = true) :
    c.isDigit = false := by
  rw [Bool.eq_false_iff]
  intro hdigit
  have hrange : 48 ≤ c.toNat ∧ c.toNat ≤ 57 := Char.isDigit_iff_toNat.mp hdigit
  rw [isWordStart, Bool.or_eq_true, beq_iff_eq] at hc
  obtain rfl | hletter := hc
  · cases hdigit
  · obtain hupper | hlower := (Bool.or_eq_true _ _).mp hletter
    · have hnat : 65 ≤ c.toNat := UInt32.le_iff_toNat_le.mp (of_decide_eq_true hupper).1
      omega
    · have hle := of_decide_eq_true ((Bool.and_eq_true _ _).mp hlower).1
      have hnat : 97 ≤ c.toNat := UInt32.le_iff_toNat_le.mp hle
      omega

/-- What ends a word ends a numeral. -/
theorem Breaks.not_isDigit (h : Breaks rest) : ∀ c ∈ rest.head?, c.isDigit = false := by
  intro c hc
  have hword := h c hc
  rw [isWordChar, Bool.or_eq_false_iff] at hword
  exact hword.2

/-- A word ends where a character stands that is no word character. -/
theorem breaks_cons {c : Char} (hc : isWordChar c = false) : Breaks (c :: rest) := by
  intro d hd
  cases hd
  exact hc

/-- A word is scanned as a whole. -/
theorem scanFrom_word {word : String} (hword : isWord word = true) (hrest : Breaks rest) :
    (scanFrom line (word.toList ++ rest)).tokens =
      wordToken line word :: (scanFrom line rest).tokens := by
  unfold isWord at hword
  split at hword
  · cases hword
  · next c cs hlist =>
    rw [Bool.and_eq_true] at hword
    obtain ⟨hstart, hcs⟩ := hword
    obtain ⟨hspace, hhash⟩ := isWordChar_not_gap (c := c) (by rw [isWordChar, hstart]; rfl)
    obtain ⟨htake, hdrop⟩ := takeWhile_append_of_head hcs hrest
    have hmunch : munch c (cs ++ rest) = ⟨wordKind word, c :: cs, rest⟩ := by
      have hdigit : ¬c.isDigit = true := by
        rw [isDigit_eq_false_of_isWordStart hstart]
        decide
      rw [munch.eq_def, if_neg hdigit, if_pos hstart]
      simp only [htake, hdrop, ← hlist, String.ofList_toList]
    rw [hlist, List.cons_append, scanFrom_munch hspace hhash, hmunch, ← hlist,
      String.ofList_toList]
    rfl

/-- A run of digits is scanned as a whole. -/
theorem scanFrom_digits {digits : String} (hne : digits.toList ≠ [])
    (hdigits : digits.toList.all Char.isDigit = true) (hrest : Breaks rest) :
    (scanFrom line (digits.toList ++ rest)).tokens =
      ⟨.integer, digits, line⟩ :: (scanFrom line rest).tokens := by
  match hlist : digits.toList with
  | [] => exact absurd hlist hne
  | c :: cs =>
    rw [hlist, List.all_cons, Bool.and_eq_true] at hdigits
    obtain ⟨hc, hcs⟩ := hdigits
    obtain ⟨hspace, hhash⟩ := isWordChar_not_gap (c := c) (by rw [isWordChar, hc, Bool.or_true])
    obtain ⟨htake, hdrop⟩ := takeWhile_append_of_head hcs hrest.not_isDigit
    have hmunch : munch c (cs ++ rest) = ⟨.integer, c :: cs, rest⟩ := by
      rw [munch.eq_def, if_pos hc, htake, hdrop]
    rw [List.cons_append, scanFrom_munch hspace hhash, hmunch, ← hlist, String.ofList_toList]

/-- What a symbol is not. -/
theorem isSymbol_iff {c : Char} :
    isSymbol c = true ↔
      isSpace c = false ∧ c ≠ '#' ∧ isWordStart c = false ∧ c.isDigit = false := by
  simp only [isSymbol, isWordChar, Bool.and_eq_true, Bool.not_eq_true', bne_iff_ne, ne_eq,
    Bool.or_eq_false_iff, and_assoc]

/-- A symbol that makes no pair with what stands behind it is scanned by itself. -/
theorem scanFrom_symbol {c : Char} (hc : isSymbol c = true)
    (hpair : ∀ d ∈ rest.head?, pairKind? c d = none) :
    (scanFrom line (c :: rest)).tokens = symbolToken line c :: (scanFrom line rest).tokens := by
  obtain ⟨hspace, hhash, hstart, hdigit⟩ := isSymbol_iff.mp hc
  have hmunch : munch c rest = ⟨charKind c, [c], rest⟩ := by
    rw [munch.eq_def, if_neg (by rw [hdigit]; decide), if_neg (by rw [hstart]; decide)]
    match rest with
    | [] => rfl
    | d :: rest => simp only [hpair d rfl]
  rw [scanFrom_munch hspace hhash, hmunch]
  rfl

/-- A pair of symbols that is an operator is scanned as one. -/
theorem scanFrom_pair {c d : Char} {kind : TokenKind} (hc : isSymbol c = true)
    (hpair : pairKind? c d = some kind) :
    (scanFrom line (c :: d :: rest)).tokens =
      ⟨kind, String.ofList [c, d], line⟩ :: (scanFrom line rest).tokens := by
  obtain ⟨hspace, hhash, hstart, hdigit⟩ := isSymbol_iff.mp hc
  have hmunch : munch c (d :: rest) = ⟨kind, [c, d], rest⟩ := by
    rw [munch.eq_def, if_neg (by rw [hdigit]; decide), if_neg (by rw [hstart]; decide)]
    simp only [hpair]
  rw [scanFrom_munch hspace hhash, hmunch]

/-- The symbols that no operator of two characters begins with. -/
def isPlain (c : Char) : Bool :=
  isSymbol c && c != '=' && c != '!' && c != '-'

/-- A plain symbol is scanned by itself, whatever stands behind it. -/
theorem scanFrom_plain {c : Char} (hc : isPlain c = true) :
    (scanFrom line (c :: rest)).tokens = symbolToken line c :: (scanFrom line rest).tokens := by
  simp only [isPlain, Bool.and_eq_true, bne_iff_ne, ne_eq] at hc
  obtain ⟨⟨⟨hsymbol, hequals⟩, hbang⟩, hminus⟩ := hc
  refine scanFrom_symbol hsymbol fun d _ => ?_
  simp [pairKind?, hequals, hbang, hminus]

/-- A blank that is no line feed is skipped. -/
theorem scanFrom_blank : scanFrom line (' ' :: rest) = scanFrom line rest :=
  scanFrom_space rfl

/-- A line feed begins a new line. -/
theorem scanFrom_newline : scanFrom line ('\n' :: rest) = scanFrom (line + 1) rest :=
  scanFrom_space rfl

/-- A word and the blank behind it are scanned as the word. -/
theorem scanFrom_word_blank {word : String} (hword : isWord word = true) :
    (scanFrom line (word.toList ++ ' ' :: rest)).tokens =
      wordToken line word :: (scanFrom line rest).tokens := by
  rw [scanFrom_word hword (breaks_cons rfl), scanFrom_blank]

end Pieces

/-- No symbol is an identifier. -/
theorem charKind_ne_ident (c : Char) : charKind c ≠ .ident := by
  unfold charKind
  split <;> exact nofun

/-- No pair of symbols is an identifier. -/
theorem pairKind?_ne_ident (c d : Char) : pairKind? c d ≠ some .ident := by
  unfold pairKind?
  split
  · exact nofun
  · split
    · exact nofun
    · split <;> exact nofun

/-- A token that is taken for an identifier is a name. -/
theorem isName_of_munch {c : Char} {cs : List Char} (h : (munch c cs).kind = .ident) :
    isName (String.ofList (munch c cs).text) = true := by
  rw [munch.eq_def] at h ⊢
  split at h
  · cases h
  · next hdigit =>
    rw [if_neg hdigit]
    split at h
    · next hstart =>
      rw [if_pos hstart]
      refine isName_iff.mpr ⟨?_, h⟩
      unfold isWord
      rw [String.toList_ofList]
      simp [hstart, List.all_takeWhile]
    · split at h
      · exact absurd h (charKind_ne_ident c)
      · split at h
        · next hpair =>
          subst h
          exact absurd hpair (pairKind?_ne_ident _ _)
        · exact absurd h (charKind_ne_ident c)

/-- The identifiers among the tokens of a text are names. -/
theorem isName_of_mem_scanFrom {line : Nat} {cs : List Char} {t : Token}
    (ht : t ∈ (scanFrom line cs).tokens) (hkind : t.kind = .ident) : isName t.text = true := by
  fun_induction scanFrom line cs with
  | case1 => cases ht
  | case2 line cs gap c rest hgap lexeme after ih =>
    obtain rfl | ht := List.mem_cons.mp ht
    · exact isName_of_munch hkind
    · exact ih ht

/-- No word is the end of the input. -/
theorem wordKind_ne_endOfInput (word : String) : wordKind word ≠ .endOfInput := by
  unfold wordKind
  split <;> exact nofun

/-- No symbol is the end of the input. -/
theorem charKind_ne_endOfInput (c : Char) : charKind c ≠ .endOfInput := by
  unfold charKind
  split <;> exact nofun

/-- No pair of symbols is the end of the input. -/
theorem pairKind?_ne_endOfInput (c d : Char) : pairKind? c d ≠ some .endOfInput := by
  unfold pairKind?
  split
  · exact nofun
  · split
    · exact nofun
    · split <;> exact nofun

/-- No token that is read is the end of the input. -/
theorem munch_ne_endOfInput (c : Char) (cs : List Char) : (munch c cs).kind ≠ .endOfInput := by
  rw [munch.eq_def]
  split
  · intro hkind
    cases hkind
  · split
    · exact wordKind_ne_endOfInput _
    · split
      · exact charKind_ne_endOfInput c
      · next d rest =>
        split
        · next kind hpair =>
          rintro rfl
          exact pairKind?_ne_endOfInput c d hpair
        · exact charKind_ne_endOfInput c

/-- No token of a text is the end of the input. -/
theorem kind_ne_endOfInput {line : Nat} {cs : List Char} {t : Token}
    (ht : t ∈ (scanFrom line cs).tokens) : t.kind ≠ .endOfInput := by
  fun_induction scanFrom line cs with
  | case1 => cases ht
  | case2 line cs gap c rest hgap lexeme after ih =>
    obtain rfl | ht := List.mem_cons.mp ht
    · exact munch_ne_endOfInput c rest
    · exact ih ht

end EtherLang
