import EtherLang.Proofs.Token.LongestMatch

/-!
# Texts cut at line feeds and tokens written anew

A text can be cut at any of its line feeds: it has the tokens of the part before the line feed and
then those of the part behind it, which only stand on later lines. It can also be written anew from
its tokens. A single blank keeps any two of them apart, since no token is lengthened by a blank and
none contains one, so what is scanned then are the same tokens, all on the first line.
-/

namespace EtherLang

/-- The token so many lines further down. -/
def Token.laterBy (lines : Nat) (t : Token) : Token :=
  { t with line := t.line + lines }

/-- The token on another line. -/
def Token.onLine (line : Nat) (t : Token) : Token :=
  { t with line := line }

/-- The tokens that are not the end of the input. -/
def beforeEnd (ts : List Token) : List Token :=
  ts.filter fun t => t.kind ≠ .endOfInput

/-- Without the end of the input the tokens of a text are left. -/
theorem beforeEnd_tokenize (source : String) :
    beforeEnd (tokenize source) = (tokenStream source).tokens := by
  have htokens : beforeEnd (tokenStream source).tokens = (tokenStream source).tokens :=
    List.filter_eq_self.mpr fun t ht => decide_eq_true (kind_ne_endOfInput ht)
  rw [beforeEnd] at htokens
  rw [tokenize, TokenStream.toList, beforeEnd, List.filter_append, htokens]
  exact List.append_nil _

section Lines

/-- A text that begins further down has its tokens and its end as much further down. -/
theorem scanFrom_add (line lines : Nat) (cs : List Char) :
    scanFrom (line + lines) cs =
      ⟨(scanFrom line cs).tokens.map (Token.laterBy lines),
        (scanFrom line cs).endLine + lines⟩ := by
  fun_induction scanFrom line cs with
  | case1 line cs gap hgap =>
    rw [scanFrom_of_gap hgap, Nat.add_right_comm]
    rfl
  | case2 line cs gap c rest hgap lexeme after ih =>
    rw [scanFrom_of_gap_cons hgap, Nat.add_right_comm, ih]
    rfl

/-- The end of the input is among what moves down with a text. -/
theorem TokenStream.toList_later (s : TokenStream) (lines : Nat) :
    TokenStream.toList ⟨s.tokens.map (Token.laterBy lines), s.endLine + lines⟩ =
      s.toList.map (Token.laterBy lines) := by
  rw [toList, toList, List.map_append]
  rfl

end Lines

section Blanks

variable {c : Char} {rest more : List Char}

/-- A token that stands at the head of a text is scanned there, whatever text follows it that does
not lengthen it. -/
theorem scanFrom_head (hapart : isSpace c = false ∧ c ≠ '#')
    (hmore : KeepsApart (munch c rest).rest more) (line : Nat) :
    scanFrom line ((munch c rest).text ++ more) =
      ⟨⟨(munch c rest).kind, String.ofList (munch c rest).text, line⟩ ::
          (scanFrom line more).tokens, (scanFrom line more).endLine⟩ := by
  have hgap : splitGap false (c :: rest) = ([], c :: rest) := by
    rw [splitGap]
    simp [hapart]
  exact scanFrom_of_keepsApart hgap hmore line

/-- Behind the first of some texts with blanks between them stands nothing that lengthens a token,
and it has the tokens of the other texts. -/
theorem exists_intercalate_cons (text : List Char) (texts : List (List Char)) :
    ∃ more, [' '].intercalate (text :: texts) = text ++ more ∧
      (∀ rest, KeepsApart rest more) ∧
      ∀ line, scanFrom line more = scanFrom line ([' '].intercalate texts) := by
  cases texts with
  | nil => exact ⟨[], by simp, nofun, fun _ => rfl⟩
  | cons next texts =>
    refine ⟨' ' :: [' '].intercalate (next :: texts), ?_, ?_, fun line => scanFrom_blank⟩
    · rw [List.intercalate_cons_cons, List.append_assoc]
      rfl
    · rintro rest d hd
      cases hd
      exact .inl rfl

/-- The tokens of a text, written with a blank between them, are scanned as they were, but all on
the same line. -/
theorem scanFrom_intercalate_blank (line line' : Nat) (cs : List Char) :
    scanFrom line' ([' '].intercalate ((scanFrom line cs).tokens.map (·.text.toList))) =
      ⟨(scanFrom line cs).tokens.map (Token.onLine line'), line'⟩ := by
  fun_induction scanFrom line cs with
  | case1 line cs gap hgap =>
    have hgap : splitGap false [] = ([], []) := rfl
    exact scanFrom_of_gap hgap
  | case2 line cs gap c rest hgap lexeme after ih =>
    have htext : (String.ofList lexeme.text).toList = lexeme.text := String.toList_ofList ..
    -- Where a blank or the end stands behind a token now, it was apart from the next one before.
    obtain ⟨more, hjoined, hkeeps, hmore⟩ :=
      exists_intercalate_cons lexeme.text (after.tokens.map (·.text.toList))
    rw [List.map_cons, htext, hjoined,
      scanFrom_head (apart_of_splitGap hgap) (hkeeps lexeme.rest), hmore, ih]
    rfl

end Blanks

/-- The tokens of two texts with a line feed between them are those of the first text, without its
end, and those of the second, as many lines further down as the first text and the line feed take
up. The tokens of any text, written down with single blanks between them, are scanned with the same
kinds and texts in the same order, all on the first line. -/
theorem tokenize_append_newline_and_intercalate_blank :
    (∀ a b : String, tokenize (a ++ "\n" ++ b) =
      beforeEnd (tokenize a) ++
        (tokenize b).map (Token.laterBy (1 + a.toList.count '\n'))) ∧
      ∀ source : String,
        tokenize (" ".intercalate ((beforeEnd (tokenize source)).map Token.text)) =
          (tokenize source).map (Token.onLine 1) := by
  constructor
  · intro a b
    have hline : (tokenStream a).endLine + 1 = 1 + (1 + a.toList.count '\n') := by
      rw [tokenStream, endLine_scanFrom]
      omega
    rw [beforeEnd_tokenize, tokenize, tokenStream_append_newline, hline, scanFrom_add]
    rw [tokenize, ← TokenStream.toList_later, TokenStream.toList, List.append_assoc]
    rfl
  · intro source
    have htext : (" ".intercalate ((beforeEnd (tokenize source)).map Token.text)).toList =
        [' '].intercalate ((tokenStream source).tokens.map (·.text.toList)) := by
      rw [beforeEnd_tokenize, String.toList_intercalate, List.map_map]
      rfl
    rw [tokenize, tokenStream, htext, tokenStream, scanFrom_intercalate_blank, tokenize,
      TokenStream.toList, TokenStream.toList, List.map_append]
    rfl

end EtherLang
