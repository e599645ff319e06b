import Mathlib.Data.List.Chain
import EtherLang.Proofs.Token.Cutting
import EtherLang.Repl

/-!
# Entries without carriage returns

Between the tokens of a text a carriage return is a blank like others, but the dialogue takes it out
of an entry before the entry is scanned. Gaps stay gaps without their carriage returns, and inside
of comments nothing changes. What can change is the seam between two tokens that nothing but
carriage returns keep apart: without them the first token goes on into the second if the grammar has
a token that does. So an entry has the tokens of the text as it was typed exactly if there is no
such seam.
-/

namespace EtherLang

/-- A text without its carriage returns. -/
def withoutReturns (cs : List Char) : List Char :=
  cs.filter (· != '\r')

/-- The first of two tokens goes on into the second one if they stand next to each other: with the
first character of the second it makes a longer token. -/
def RunsInto (first second : List Char) : Prop :=
  ∃ d ∈ second.head?, IsLexeme (first ++ [d])

/-- Two tokens in a row stay apart without the carriage returns between them. -/
def StaysApart (first second : Piece) : Prop :=
  (∀ c ∈ second.gap, c = '\r') → ¬RunsInto first.token.text.toList second.token.text.toList

section Returns

variable {cs ds text rest gap after : List Char}

/-- Carriage returns are taken out of both parts of a text. -/
theorem withoutReturns_append (cs ds : List Char) :
    withoutReturns (cs ++ ds) = withoutReturns cs ++ withoutReturns ds :=
  List.filter_append ..

/-- Taking out carriage returns leaves the line feeds. -/
theorem count_newline_withoutReturns (cs : List Char) :
    (withoutReturns cs).count '\n' = cs.count '\n' :=
  List.count_filter rfl

/-- A text of carriage returns has nothing else. -/
theorem withoutReturns_eq_nil (h : ∀ c ∈ cs, c = '\r') : withoutReturns cs = [] := by
  refine List.filter_eq_nil_iff.mpr fun c hc => ?_
  simp [h c hc]

/-- No token contains a carriage return. -/
theorem IsLongest.withoutReturns_eq (h : IsLongest text rest) : withoutReturns text = text := by
  refine List.filter_eq_self.mpr fun c hc => ?_
  have hspace := h.isSpace_eq_false hc
  rw [bne_iff_ne]
  rintro rfl
  cases hspace

/-- What is split off from a text without its carriage returns is the gap without them. -/
theorem splitGap_withoutReturns (inComment : Bool) (cs : List Char) :
    splitGap inComment (withoutReturns cs) =
      (withoutReturns (splitGap inComment cs).1, withoutReturns (splitGap inComment cs).2) := by
  induction cs generalizing inComment with
  | nil => rfl
  | cons c cs ih =>
    by_cases hc : c = '\r'
    · -- Outside of a comment it is a blank, and inside of one it does not end the comment.
      subst hc
      have hgap : (inComment || isSpace '\r' || '\r' == '#') = true := by simp [isSpace]
      have hsame : ('\r' == '#' || (inComment && '\r' != '\n')) = inComment := by simp
      rw [splitGap, if_pos hgap, hsame]
      exact ih inComment
    · have hkeep : ∀ ds, withoutReturns (c :: ds) = c :: withoutReturns ds := fun ds =>
        List.filter_cons_of_pos (by simpa using hc)
      rw [hkeep, splitGap, splitGap]
      split
      · rw [ih]
        exact Prod.ext (hkeep _).symm rfl
      · exact Prod.ext rfl (hkeep _).symm

/-- Without its carriage returns a gap is empty, or it begins with another character of a gap. -/
theorem IsGap.withoutReturns_cases (h : IsGap after gap) :
    (∀ c ∈ gap, c = '\r') ∨
      ∃ d ds, withoutReturns gap = d :: ds ∧ ¬(isSpace d = false ∧ d ≠ '#') := by
  induction h with
  | nil => exact .inl nofun
  | @blank c gap hspace _ ih =>
    by_cases hc : c = '\r'
    · subst hc
      obtain hall | hother := ih
      · exact .inl (List.forall_mem_cons.mpr ⟨rfl, hall⟩)
      · exact .inr hother
    · refine .inr ⟨c, withoutReturns gap, List.filter_cons_of_pos (by simpa using hc), ?_⟩
      rw [hspace]
      simp
  | @comment comment gap _ _ _ _ =>
    exact .inr ⟨'#', withoutReturns (comment ++ gap), rfl, by simp⟩

/-- No character of a gap lengthens a token. -/
theorem IsLexeme.apart_last {d : Char} (h : IsLexeme (text ++ [d])) (hne : text ≠ []) :
    isSpace d = false ∧ d ≠ '#' := by
  obtain ⟨c, cs, rfl⟩ := List.exists_cons_of_ne_nil hne
  exact IsLexeme.apart_of_mem_tail (c := c) h (by simp)

end Returns

section Cut

variable {line : Nat} {cs last : List Char} {piece : Piece} {pieces : List Piece}

/-- A token stays the longest one without the carriage returns behind it if it stays apart from the
next token. -/
theorem isLongest_withoutReturns_iff (hpiece : IsLongest piece.token.text.toList
      (spell pieces ++ last)) (hcut : IsCutInto line cs pieces last) :
    IsLongest piece.token.text.toList (withoutReturns (spell pieces ++ last)) ↔
      ∀ second ∈ pieces.head?, StaysApart piece second := by
  have hne := hpiece.lexeme.ne_nil
  rw [isLongest_iff hpiece.lexeme hpiece.apart, withoutReturns_append]
  cases pieces with
  | nil =>
    refine iff_of_true (fun d hd hlonger => ?_) nofun
    obtain hall | ⟨e, es, hes, he⟩ := hcut.gap.withoutReturns_cases
    · rw [withoutReturns_eq_nil hall] at hd
      cases hd
    · rw [hes] at hd
      cases hd
      exact he (hlonger.apart_last hne)
  | cons second after =>
    obtain ⟨hsecond, -⟩ := hcut.uncons
    obtain ⟨c, text, htext⟩ := List.exists_cons_of_ne_nil hsecond.longest.lexeme.ne_nil
    rw [spell_cons, withoutReturns_append, withoutReturns_append,
      hsecond.longest.withoutReturns_eq, List.append_assoc, List.append_assoc, htext]
    obtain hall | ⟨e, es, hes, he⟩ := hsecond.gap.withoutReturns_cases
    · -- Only carriage returns stood between the two tokens.
      have hapart : StaysApart piece second ↔ ¬IsLexeme (piece.token.text.toList ++ [c]) := by
        rw [StaysApart, imp_iff_right hall, RunsInto, htext]
        simp
      rw [withoutReturns_eq_nil hall]
      simp [hapart]
    · rw [hes]
      refine iff_of_true (fun d hd hlonger => ?_) ?_
      · cases hd
        exact he (hlonger.apart_last hne)
      · rintro _ ⟨⟩ hall
        rw [withoutReturns_eq_nil hall] at hes
        cases hes

/-- Without carriage returns the first token is scanned as before if it is still the longest one,
and so are the others. -/
theorem tokens_withoutReturns_cons (h : IsCutInto line cs (piece :: pieces) last) :
    (scanFrom line (withoutReturns cs)).tokens = (piece :: pieces).map Piece.token ↔
      IsLongest piece.token.text.toList (withoutReturns (spell pieces ++ last)) ∧
        (scanFrom (line + piece.gap.count '\n') (withoutReturns (spell pieces ++ last))).tokens =
          pieces.map Piece.token := by
  obtain ⟨hpiece, -⟩ := h.uncons
  obtain ⟨c, text, htext⟩ := List.exists_cons_of_ne_nil hpiece.longest.lexeme.ne_nil
  have hgap : splitGap false (withoutReturns cs) =
      (withoutReturns piece.gap, c :: (text ++ withoutReturns (spell pieces ++ last))) := by
    rw [splitGap_withoutReturns, h.text, spell_cons, List.append_assoc, List.append_assoc,
      hpiece.splitGap_eq, withoutReturns_append _ (spell pieces ++ last),
      hpiece.longest.withoutReturns_eq, htext]
    rfl
  rw [scanFrom_of_gap_cons hgap, count_newline_withoutReturns, List.map_cons, List.cons.injEq,
    htext]
  constructor
  · rintro ⟨htoken, hothers⟩
    have htaken := congrArg (·.text.toList) htoken
    simp only [String.toList_ofList, htext] at htaken
    have happend := munch_append c (text ++ withoutReturns (spell pieces ++ last))
    rw [htaken, ← List.cons_append] at happend
    have hbehind := List.append_cancel_left happend
    have hlongest : IsLongest (munch c (text ++ withoutReturns (spell pieces ++ last))).text
        (munch c (text ++ withoutReturns (spell pieces ++ last))).rest :=
      isLongest_munch (hpiece.longest.apart c (by rw [htext]; rfl))
    rw [htaken, hbehind] at hlongest
    rw [hbehind] at hothers
    exact ⟨hlongest, hothers⟩
  · rintro ⟨hlongest, hothers⟩
    have htoken : piece.token = ⟨kindOf (c :: text), String.ofList (c :: text),
        line + piece.gap.count '\n'⟩ := by
      have hline : piece.token.line = line + piece.gap.count '\n' := hpiece.line
      rw [← htext, ← hpiece.kind, String.ofList_toList, ← hline]
    rw [hlongest.munch_eq, htoken]
    exact ⟨rfl, hothers⟩

/-- Without carriage returns the tokens of a text are scanned as before if they all stay apart from
the next one. -/
theorem tokens_withoutReturns (h : IsCutInto line cs pieces last) :
    (scanFrom line (withoutReturns cs)).tokens = pieces.map Piece.token ↔
      pieces.IsChain StaysApart := by
  induction pieces generalizing line cs with
  | nil =>
    have hgap := h.gap.splitGap_eq nofun
    have hstripped := splitGap_withoutReturns false cs
    rw [h.text, spell, List.flatMap_nil, List.nil_append] at hstripped ⊢
    rw [List.append_nil] at hgap
    rw [hgap] at hstripped
    rw [scanFrom_of_gap hstripped]
    exact iff_of_true rfl .nil
  | cons piece pieces ih =>
    obtain ⟨hpiece, hcut⟩ := h.uncons
    rw [tokens_withoutReturns_cons h, ih hcut, isLongest_withoutReturns_iff hpiece.longest hcut,
      List.isChain_cons]

end Cut

namespace Repl

/-- The tokens of an entry from which only carriage returns are taken out are those of the entry as
it was typed, with their lines, exactly if no two of them in a row have nothing but carriage returns
between them and make a longer token without. -/
theorem tokenize_normalize_eq_iff {text : String}
    (h : ∀ c ∈ text.toList, c ∉ ['\u200b', '\u200c', '\u200d', '\ufeff', '\u00a0']) :
    ∃ pieces last, IsCutInto 1 text.toList pieces last ∧
      tokenize text =
        pieces.map Piece.token ++ [Token.endOfInput (1 + text.toList.count '\n')] ∧
      (tokenize (normalize text) = tokenize text ↔ pieces.IsChain StaysApart) := by
  obtain ⟨pieces, last, hcut, htokens, hend⟩ := exists_isCutInto 1 text.toList
  have htext : tokenize text =
      pieces.map Piece.token ++ [Token.endOfInput (1 + text.toList.count '\n')] := by
    rw [tokenize, TokenStream.toList, tokenStream, htokens, hend]
  have hnormalize : (normalize text).toList = withoutReturns text.toList := by
    rw [normalize, String.toList_ofList, withoutReturns]
    refine List.filter_congr fun c hc => ?_
    have hother := h c hc
    simp only [List.mem_cons, List.not_mem_nil, or_false, not_or] at hother
    simp [isInvisible, hother, bne, beq_eq_decide]
  obtain ⟨_, _, _, _, hend'⟩ := exists_isCutInto 1 (withoutReturns text.toList)
  refine ⟨pieces, last, hcut, htext, ?_⟩
  rw [htext, tokenize, TokenStream.toList, tokenStream, hnormalize, hend',
    count_newline_withoutReturns, List.append_cancel_right_eq, tokens_withoutReturns hcut]

/-- Carriage returns before a bracket, before a line feed and in a comment. -/
def returnedLines : String :=
  "f\r(x)\r\ny # a\rb"

/-- They can be taken out without a change. -/
theorem tokenize_normalize_eq_iff_returnedLines :
    (∀ c ∈ returnedLines.toList, c ∉ ['\u200b', '\u200c', '\u200d', '\ufeff', '\u00a0']) ∧
      tokenize (normalize returnedLines) = tokenize returnedLines ∧
      ∃ pieces last, IsCutInto 1 returnedLines.toList pieces last ∧
        tokenize returnedLines = pieces.map Piece.token ++ [Token.endOfInput 2] ∧
        pieces.IsChain StaysApart := by
  have h : ∀ c ∈ returnedLines.toList,
      c ∉ ['\u200b', '\u200c', '\u200d', '\ufeff', '\u00a0'] := by
    simp [returnedLines]
  have hsame : tokenize (normalize returnedLines) = tokenize returnedLines := by decide +kernel
  obtain ⟨pieces, last, hcut, htokens, hiff⟩ := tokenize_normalize_eq_iff h
  exact ⟨h, hsame, pieces, last, hcut, htokens, hiff.mp hsame⟩

/-- A carriage return keeps two numerals apart that are one numeral without it. -/
theorem tokenize_normalize_ne :
    (∀ c ∈ "1\r2".toList, c ∉ ['\u200b', '\u200c', '\u200d', '\ufeff', '\u00a0']) ∧
      tokenize (normalize "1\r2") ≠ tokenize "1\r2" :=
  ⟨by simp, by decide +kernel⟩

end Repl

end EtherLang
