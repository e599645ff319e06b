import Mathlib.Data.List.TakeDrop
import Mathlib.Data.List.TakeWhile
import EtherLang.Highlight
import EtherLang.Proofs.Token.LongestMatch

/-!
# Highlighting loses nothing

To highlight a text is to look for the text of each of its tokens behind the place where the token
before it was found. What is found need not be the token itself, for the same characters may stand
in a comment before it. But it is never something later: the place that the search has come to is
at most where the next token begins. So the search finds every token, each of them is shown once
and in order, and together with what stands between them they make up the text.

Which style a token is shown in is laid down by its kind and its text, for every kind there is.
-/

namespace EtherLang.Highlight

section Search

variable {part rest gap after : List Char}

/-- What stands before and after the place that was found makes up the text. -/
theorem cutAtFirst_append (h : cutAtFirst part rest = some (gap, after)) :
    gap ++ part ++ after = rest := by
  induction rest generalizing gap with
  | nil =>
    rw [cutAtFirst] at h
    split at h
    · next hpart =>
      cases h
      rw [List.isEmpty_iff.mp hpart]
      rfl
    · cases h
  | cons c cs ih =>
    rw [cutAtFirst] at h
    split at h
    · next hpart =>
      cases h
      exact List.prefix_iff_eq_append.mp (List.isPrefixOf_iff_prefix.mp hpart)
    · obtain ⟨⟨before, behind⟩, hfound, heq⟩ := Option.map_eq_some_iff.mp h
      cases heq
      exact congrArg (c :: ·) (ih hfound)

/-- What a text contains is found in it, at the given place or before: what stands behind the given
place stands behind the place that is found. -/
theorem exists_cutAtFirst (front part back : List Char) :
    ∃ gap after, cutAtFirst part (front ++ part ++ back) = some (gap, after) ∧ back <:+ after := by
  induction front with
  | nil =>
    rw [List.nil_append]
    have hprefix : part.isPrefixOf (part ++ back) = true :=
      List.isPrefixOf_iff_prefix.mpr (List.prefix_append part back)
    cases htext : part ++ back with
    | nil =>
      obtain ⟨rfl, rfl⟩ := List.append_eq_nil_iff.mp htext
      exact ⟨[], [], rfl, List.suffix_rfl⟩
    | cons c cs =>
      rw [htext] at hprefix
      have hback : (c :: cs).drop part.length = back := by rw [← htext, List.drop_left]
      refine ⟨[], (c :: cs).drop part.length, ?_, hback ▸ List.suffix_rfl⟩
      rw [cutAtFirst, if_pos hprefix]
  | cons c front ih =>
    rw [List.cons_append, List.cons_append, cutAtFirst]
    split
    · refine ⟨[], _, rfl, ?_⟩
      have hlength : part.length ≤ (c :: (front ++ part)).length := by
        simp only [List.length_cons, List.length_append]
        omega
      rw [← List.cons_append, List.drop_append_of_le_length hlength]
      exact List.suffix_append _ _
    · obtain ⟨gap, after, hfound, hback⟩ := ih
      exact ⟨c :: gap, after, by rw [hfound]; rfl, hback⟩

end Search

/-- The search finds every token: the first one in the text that is left, and the others in what
stands behind it. -/
inductive AllFound : List Char → List Token → Prop
  | nil (rest : List Char) : AllFound rest []
  | cons {rest gap after : List Char} {t : Token} {ts : List Token} :
    cutAtFirst t.text.toList rest = some (gap, after) → AllFound after ts →
    AllFound rest (t :: ts)

/-- Where the search has not come past the next token, it finds that one and all others. -/
theorem allFound_of_suffix {pieces : List Piece} {last rest : List Char}
    (h : spell pieces ++ last <:+ rest) : AllFound rest (pieces.map Piece.token) := by
  induction pieces generalizing rest with
  | nil => exact .nil rest
  | cons piece pieces ih =>
    obtain ⟨front, rfl⟩ := h
    have htext : front ++ (spell (piece :: pieces) ++ last) =
        (front ++ piece.gap) ++ piece.token.text.toList ++ (spell pieces ++ last) := by
      rw [spell_cons]
      simp only [List.append_assoc]
    -- What is left behind the place that is found still has the later tokens at its end.
    obtain ⟨gap, after, hfound, hback⟩ :=
      exists_cutAtFirst (front ++ piece.gap) piece.token.text.toList (spell pieces ++ last)
    rw [← htext] at hfound
    exact .cons hfound (ih hback)

/-- The search for the tokens of a text in the text finds them all. -/
theorem allFound_tokenStream (text : String) :
    AllFound text.toList (tokenStream text).tokens := by
  obtain ⟨pieces, last, hcut, htokens, -⟩ := exists_isCutInto 1 text.toList
  have hsuffix : spell pieces ++ last <:+ text.toList := hcut.text ▸ List.suffix_rfl
  rw [tokenStream, htokens]
  exact allFound_of_suffix hsuffix

/-- The style that a token is to be shown in. Keywords, truth values, numbers and what is illegal
have one by their kind, and the names of the standard builtins have one by their text. Other
identifiers, operators and punctuation have none but the empty one. -/
inductive HasStyle (t : Token) : Style → Prop
  | keyword : t.kind ∈ [.kwVar, .kwReturn, .kwIf, .kwElse] → HasStyle t .keyword
  | boolean : t.kind ∈ [.kwTrue, .kwFalse] → HasStyle t .boolean
  | number : t.kind = .integer → HasStyle t .number
  | builtin : t.kind = .ident → t.text ∈ ["len", "map", "puts"] → HasStyle t .builtin
  | error : t.kind = .illegal → HasStyle t .error
  | identifier : t.kind = .ident → t.text ∉ ["len", "map", "puts"] → HasStyle t .plain
  | sign :
    t.kind ∉ [.kwVar, .kwReturn, .kwIf, .kwElse, .kwTrue, .kwFalse, .integer, .ident, .illegal] →
    HasStyle t .plain

/-- The span shows the token: it has the text of the token, in the style of the token. -/
structure Shows (t : Token) (span : Span) : Prop where
  text : span.text = t.text
  style : HasStyle t span.style

section Style

variable {t : Token} {style : Style} {span : Span}

/-- Every token is given the style that it is to be shown in. -/
theorem hasStyle_tokenStyle (t : Token) : HasStyle t (tokenStyle t) := by
  unfold tokenStyle
  split
  case h_1 hkind | h_2 hkind | h_3 hkind | h_4 hkind => exact .keyword (by simp [hkind])
  case h_5 hkind | h_6 hkind => exact .boolean (by simp [hkind])
  case h_7 hkind => exact .number hkind
  case h_8 hkind =>
    split
    · next htext => exact .builtin hkind htext
    · next htext => exact .identifier hkind htext
  case h_9 hkind => exact .error hkind
  case h_10 => exact .sign (by simp_all)

/-- There is no other style that a token is to be shown in. -/
theorem HasStyle.eq_tokenStyle (h : HasStyle t style) : style = tokenStyle t := by
  cases h with
  | keyword hkind =>
    simp only [List.mem_cons, List.not_mem_nil, or_false] at hkind
    obtain hkind | hkind | hkind | hkind := hkind <;> rw [tokenStyle, hkind]
  | boolean hkind =>
    simp only [List.mem_cons, List.not_mem_nil, or_false] at hkind
    obtain hkind | hkind := hkind <;> rw [tokenStyle, hkind]
  | number hkind | error hkind => rw [tokenStyle, hkind]
  | builtin hkind htext => simp only [tokenStyle, hkind, if_pos htext]
  | identifier hkind htext => simp only [tokenStyle, hkind, if_neg htext]
  | sign hkind =>
    unfold tokenStyle
    split <;> simp_all

/-- What shows a token is its text in the style that it is given. -/
theorem shows_iff : Shows t span ↔ span = ⟨tokenStyle t, t.text⟩ := by
  constructor
  · rintro ⟨htext, hstyle⟩
    obtain ⟨style, text⟩ := span
    rw [← hstyle.eq_tokenStyle, ← htext]
  · rintro rfl
    exact ⟨rfl, hasStyle_tokenStyle t⟩

end Style

/-- The spans of what stands between two tokens, if anything does. -/
def spansBetween (gap : List Char) : List Span :=
  if gap.isEmpty then [] else gapSpans gap

/-- The text that spans show. -/
def shown (spans : List Span) : List Char :=
  spans.flatMap fun span => span.text.toList

section Shown

variable {rest gap after : List Char} {t : Token} {ts : List Token}

/-- Spans one after the other show their texts one after the other. -/
@[simp] theorem shown_append (spans spans' : List Span) :
    shown (spans ++ spans') = shown spans ++ shown spans' :=
  List.flatMap_append

/-- A first span shows its text first. -/
@[simp] theorem shown_cons (span : Span) (spans : List Span) :
    shown (span :: spans) = span.text.toList ++ shown spans :=
  List.flatMap_cons

/-- No spans show nothing. -/
@[simp] theorem shown_nil : shown [] = [] :=
  rfl

/-- The texts of spans put together are what the spans show. -/
theorem join_text_eq (spans : List Span) :
    String.join (spans.map Span.text) = String.ofList (shown spans) := by
  rw [← String.toList_inj, String.toList_ofList, String.toList_join, List.flatMap_map]
  rfl

/-- A gap without `#` is shown in one span. -/
theorem gapSpans_of_notMem (h : '#' ∉ gap) : gapSpans gap = [⟨.plain, String.ofList gap⟩] := by
  have hall : ∀ c ∈ gap, (c != '#') = true := fun c hc => bne_iff_ne.mpr (ne_of_mem_of_not_mem hc h)
  rw [gapSpans, List.span_eq_takeWhile_dropWhile, List.takeWhile_eq_self_iff.mpr hall,
    List.dropWhile_eq_nil_iff.mpr hall]

/-- What stands in a gap from its first `#` on is shown as a comment, and what stands before it is
shown by itself. -/
theorem gapSpans_of_comment {blank comment : List Char} (h : '#' ∉ blank) :
    gapSpans (blank ++ '#' :: comment) =
      spansBetween blank ++ [⟨.comment, String.ofList ('#' :: comment)⟩] := by
  have hall : ∀ c ∈ blank, (c != '#') = true :=
    fun c hc => bne_iff_ne.mpr (ne_of_mem_of_not_mem hc h)
  have htake : (blank ++ '#' :: comment).takeWhile (· != '#') = blank := by
    simp [List.takeWhile_append_of_pos hall]
  have hdrop : (blank ++ '#' :: comment).dropWhile (· != '#') = '#' :: comment := by
    simp [List.dropWhile_append_of_pos hall]
  rw [gapSpans, List.span_eq_takeWhile_dropWhile, htake, hdrop, spansBetween,
    gapSpans_of_notMem h]
  cases blank <;> rfl

/-- The spans of a gap show the gap, in no style but the two of gaps. -/
theorem gapSpans_spec (gap : List Char) :
    shown (gapSpans gap) = gap ∧
      ∀ span ∈ gapSpans gap, span.style = .plain ∨ span.style = .comment := by
  by_cases hhash : '#' ∈ gap
  · obtain ⟨blank, comment, rfl, hblank⟩ := List.eq_append_cons_of_mem hhash
    rw [gapSpans_of_comment hblank, spansBetween, gapSpans_of_notMem hblank]
    cases blank <;> simp
  · rw [gapSpans_of_notMem hhash]
    simp

/-- The spans of what may stand between two tokens show it, in no style but the two of gaps. -/
theorem spansBetween_spec (gap : List Char) :
    shown (spansBetween gap) = gap ∧
      ∀ span ∈ spansBetween gap, span.style = .plain ∨ span.style = .comment := by
  rw [spansBetween]
  split
  · next hgap =>
    rw [List.isEmpty_iff.mp hgap]
    exact ⟨rfl, List.forall_mem_nil _⟩
  · exact gapSpans_spec gap

/-- Behind the last token stands a gap. -/
theorem spansOf_nil (rest : List Char) : spansOf rest [] = spansBetween rest :=
  rfl

/-- A token that is found is shown behind what stands before it. -/
theorem spansOf_cons (h : cutAtFirst t.text.toList rest = some (gap, after)) :
    spansOf rest (t :: ts) = spansBetween gap ++ ⟨tokenStyle t, t.text⟩ :: spansOf after ts := by
  rw [spansOf, h]
  rfl

/-- If all tokens are found, the spans make up the text. -/
theorem AllFound.shown_spansOf (h : AllFound rest ts) : shown (spansOf rest ts) = rest := by
  induction h with
  | nil rest => exact (spansBetween_spec rest).1
  | cons hfound _ ih =>
    rw [spansOf_cons hfound, shown_append, shown_cons, (spansBetween_spec _).1, ih]
    simpa using cutAtFirst_append hfound

end Shown

/-- The spans are those of the tokens, one of each in order, and before, between and behind them
spans in the styles of gaps. -/
inductive ShowsEach : List Token → List Span → Prop
  | nil {gap : List Span} :
    (∀ span ∈ gap, span.style = .plain ∨ span.style = .comment) → ShowsEach [] gap
  | cons {t : Token} {ts : List Token} {span : Span} {gap spans : List Span} :
    (∀ span ∈ gap, span.style = .plain ∨ span.style = .comment) → Shows t span →
    ShowsEach ts spans → ShowsEach (t :: ts) (gap ++ span :: spans)

/-- If all tokens are found, each has a span. -/
theorem AllFound.showsEach {rest : List Char} {ts : List Token} (h : AllFound rest ts) :
    ShowsEach ts (spansOf rest ts) := by
  induction h with
  | nil rest => exact .nil (spansBetween_spec rest).2
  | cons hfound _ ih =>
    rw [spansOf_cons hfound]
    exact .cons (spansBetween_spec _).2 (shows_iff.mpr rfl) ih

/-- The spans of a text make it up. -/
theorem shown_line (text : String) : shown (line text) = text.toList := by
  rw [line]
  split
  · next hempty =>
    rw [String.isEmpty_iff.mp hempty]
    rfl
  · exact (allFound_tokenStream text).shown_spansOf

/-- Highlighting loses nothing, however many lines a text has: the spans make up the text, every
token has a span of its own in the order of the tokens, and there is no token that the search does
not find. -/
theorem line_complete (text : String) :
    String.join ((line text).map Span.text) = text ∧
      ShowsEach (tokenStream text).tokens (line text) ∧
      AllFound text.toList (tokenStream text).tokens := by
  have hfound := allFound_tokenStream text
  refine ⟨?_, ?_, hfound⟩
  · rw [join_text_eq, shown_line, String.ofList_toList]
  · rw [line]
    split
    · next hempty =>
      have htokens : (tokenStream "").tokens = [] := scanFrom_nil
      rw [String.isEmpty_iff.mp hempty, htokens]
      exact .nil (by simp)
    · exact hfound.showsEach

/-- The word is found in the comment before it, and its own place is shown as text behind it. -/
example : line "#a\na" = [⟨.comment, "#"⟩, ⟨.plain, "a"⟩, ⟨.plain, "\na"⟩] := by
  decide +kernel

end EtherLang.Highlight
