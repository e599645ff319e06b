import EtherLang.Proofs.Ast.Rejection
import EtherLang.Proofs.Highlight.Search

/-!
# Highlighting line by line

The lines of a text are highlighted one by one, each as if it were the whole text. This shows the
tokens of the text all the same: no token and no comment goes on behind a line feed, so the tokens
of a line by itself are those that the text has on it. Inside a line nothing but blanks stands
before a token, so the search for a token finds it where it is, and what stands behind the last
token is blanks and at most one comment.
-/

namespace EtherLang

namespace Cursor

/-- The tokens from a place on, each with its position, which is where the reading of it ends less
its length. -/
def placed (c : Cursor) : List (Nat × Token) :=
  (c.pull (scanFrom c.line c.rest).tokens.length).map fun (t, after) =>
    (after.pos - t.text.length, t)

section Placed

variable {c : Char} {cs gap rest : List Char} {pos line : Nat}

/-- Behind the last token none is placed. -/
theorem placed_of_gap (h : splitGap false cs = (gap, [])) : placed ⟨cs, pos, line⟩ = [] := by
  simp only [placed, scanFrom_of_gap h]
  rfl

/-- The first token is placed behind the gap, and the others are placed behind it. -/
theorem placed_of_gap_cons (h : splitGap false cs = (gap, c :: rest)) :
    placed ⟨cs, pos, line⟩ =
      (pos + gap.length,
          ⟨(munch c rest).kind, String.ofList (munch c rest).text, line + gap.count '\n'⟩) ::
        placed ⟨(munch c rest).rest, pos + gap.length + (munch c rest).text.length,
          line + gap.count '\n'⟩ := by
  simp only [placed, scanFrom_of_gap_cons h, List.length_cons, pull_succ, next_of_gap_cons h,
    List.map_cons, String.length_ofList, Nat.add_sub_cancel]

/-- The tokens that are placed are the tokens of the text. -/
theorem map_snd_placed (cs : List Char) (pos line : Nat) :
    (placed ⟨cs, pos, line⟩).map Prod.snd = (scanFrom line cs).tokens := by
  have hpull := (pull_add cs pos line 0).1
  simpa [placed, Function.comp_def] using hpull

/-- What is placed is a token of the text. -/
theorem mem_tokens_of_placed {entry : Nat × Token} (h : entry ∈ placed ⟨cs, pos, line⟩) :
    entry.2 ∈ (scanFrom line cs).tokens := by
  rw [← map_snd_placed cs pos line]
  exact List.mem_map_of_mem h

/-- No token is placed before the text or behind it. -/
theorem le_of_mem_placed (cs : List Char) (pos line : Nat) :
    ∀ entry ∈ placed ⟨cs, pos, line⟩, pos ≤ entry.1 ∧ entry.1 ≤ pos + cs.length := by
  induction line, cs using scanFrom.induct generalizing pos with
  | case1 line cs gap hgap =>
    rw [placed_of_gap hgap]
    exact List.forall_mem_nil _
  | case2 line cs gap c rest hgap lexeme ih =>
    have hlength := congrArg List.length (append_of_splitGap hgap)
    simp only [List.length_append] at hlength
    rw [placed_of_gap_cons hgap]
    refine List.forall_mem_cons.mpr ⟨by dsimp only; omega, fun entry h => ?_⟩
    obtain ⟨hle, hlt⟩ := ih _ entry h
    dsimp only [lexeme] at hlt
    omega

/-- A text that begins later has its tokens later. -/
theorem placed_add (cs : List Char) (pos offset line : Nat) :
    placed ⟨cs, pos + offset, line⟩ =
      (placed ⟨cs, pos, line⟩).map fun (start, t) => (start + offset, t) := by
  induction line, cs using scanFrom.induct generalizing pos with
  | case1 line cs gap hgap => rw [placed_of_gap hgap, placed_of_gap hgap, List.map_nil]
  | case2 line cs gap c rest hgap lexeme ih =>
    rw [placed_of_gap_cons hgap, placed_of_gap_cons hgap, List.map_cons, ← ih]
    simp only [Nat.add_right_comm _ offset]
    rfl

/-- A token is placed behind its gap, whatever text follows it that does not lengthen it. -/
theorem placed_of_keepsApart {more : List Char} (h : splitGap false cs = (gap, c :: rest))
    (hmore : KeepsApart (munch c rest).rest more) :
    placed ⟨gap ++ (munch c rest).text ++ more, pos, line⟩ =
      (pos + gap.length,
          ⟨(munch c rest).kind, String.ofList (munch c rest).text, line + gap.count '\n'⟩) ::
        placed ⟨more, pos + gap.length + (munch c rest).text.length, line + gap.count '\n'⟩ := by
  have hgap := splitGap_of_cons h ((munch c rest).text.tail ++ more)
  have htext : gap ++ (munch c rest).text ++ more =
      gap ++ c :: ((munch c rest).text.tail ++ more) := by
    rw [List.append_assoc, ← List.cons_append, munch_text]
  rw [htext, placed_of_gap_cons hgap, munch_of_keepsApart hmore]

/-- The tokens of two texts with a line feed between them are placed as in the first text by itself
and then as in the second one, which begins behind the line feed. -/
theorem placed_append_newline (cs more : List Char) (pos line : Nat) :
    placed ⟨cs ++ '\n' :: more, pos, line⟩ =
      placed ⟨cs, pos, line⟩ ++
        placed ⟨more, pos + cs.length + 1, (scanFrom line cs).endLine + 1⟩ := by
  induction line, cs using scanFrom.induct generalizing pos with
  | case1 line cs gap hgap =>
    have hcs := eq_of_splitGap hgap
    subst hcs
    have hjoined := splitGap_append_newline (congrArg Prod.snd hgap) more
    rw [placed_of_gap hgap, scanFrom_of_gap hgap, List.nil_append]
    rcases hmore : splitGap false more with ⟨gap', rest⟩
    rw [hmore] at hjoined
    cases rest with
    | nil => rw [placed_of_gap hjoined, placed_of_gap hmore]
    | cons d rest =>
      have hlength : pos + (gap ++ '\n' :: gap').length = pos + gap.length + 1 + gap'.length := by
        rw [List.length_append, List.length_cons]
        omega
      have hcount : line + (gap ++ '\n' :: gap').count '\n' =
          line + gap.count '\n' + 1 + gap'.count '\n' := by
        rw [List.count_append, List.count_cons_self]
        omega
      rw [placed_of_gap_cons hjoined, placed_of_gap_cons hmore, hlength, hcount]
  | case2 line cs gap c rest hgap lexeme ih =>
    have hcs : gap ++ lexeme.text ++ lexeme.rest = cs := append_of_splitGap hgap
    have hlength : pos + cs.length =
        pos + gap.length + lexeme.text.length + lexeme.rest.length := by
      rw [← hcs, List.length_append, List.length_append]
      omega
    have hjoined : placed ⟨gap ++ lexeme.text ++ (lexeme.rest ++ '\n' :: more), pos, line⟩ = _ :=
      placed_of_keepsApart hgap (keepsApart_append_newline lexeme.rest more)
    rw [← List.append_assoc, hcs] at hjoined
    rw [hjoined, ih, placed_of_gap_cons hgap, scanFrom_of_gap_cons hgap, hlength]
    rfl

end Placed

end Cursor

/-- The column of a position in a text: how many characters stand before it on its line. -/
def columnAt (cs : List Char) (pos : Nat) : Nat :=
  ((cs.take pos).reverse.takeWhile (· != '\n')).length

/-- The tokens that a text which begins on the line `first` has on the line `number`, each with its
column. -/
def tokensOn (first : Nat) (cs : List Char) (number : Nat) : List (Nat × Token) :=
  ((Cursor.placed ⟨cs, 0, first⟩).filter fun (_, t) => t.line = number).map fun (pos, t) =>
    (columnAt cs pos, t)

section Lines

variable {cs more : List Char} {pos first number : Nat}

/-- On the first line of a text positions are columns. -/
theorem columnAt_of_le (hline : '\n' ∉ cs) (hpos : pos ≤ cs.length) (more : List Char) :
    columnAt (cs ++ more) pos = pos := by
  have hall : ∀ c ∈ (cs.take pos).reverse, (c != '\n') = true := by
    intro c hc
    have hmem : c ∈ cs := List.mem_of_mem_take (List.mem_reverse.mp hc)
    exact bne_iff_ne.mpr (ne_of_mem_of_not_mem hmem hline)
  rw [columnAt, List.take_append_of_le_length hpos, List.takeWhile_eq_self_iff.mpr hall,
    List.length_reverse, List.length_take, Nat.min_eq_left hpos]

/-- Behind a line feed columns count anew. -/
theorem columnAt_append_newline (cs more : List Char) (pos : Nat) :
    columnAt (cs ++ '\n' :: more) (pos + (cs.length + 1)) = columnAt more pos := by
  have htake : (cs ++ '\n' :: more).take (pos + (cs.length + 1)) = cs ++ '\n' :: more.take pos := by
    rw [Nat.add_comm, Nat.add_assoc, Nat.add_comm 1, List.take_length_add_append,
      List.take_succ_cons]
  have hnewline : ('\n' :: cs.reverse).takeWhile (· != '\n') = [] := rfl
  rw [columnAt, columnAt, htake, List.reverse_append, List.reverse_cons, List.append_assoc,
    List.singleton_append, List.takeWhile_append, hnewline]
  split
  · next hall => rw [List.append_nil, hall]
  · rfl

/-- All tokens of a text without line feeds are on its first line. -/
theorem line_of_mem_placed (hline : '\n' ∉ cs) {entry : Nat × Token}
    (h : entry ∈ Cursor.placed ⟨cs, pos, first⟩) : entry.2.line = first := by
  have hend := endLine_scanFrom first cs
  rw [List.count_eq_zero_of_not_mem hline] at hend
  obtain ⟨hle, hge⟩ := (line_mem_scanFrom first cs).2 _ (Cursor.mem_tokens_of_placed h)
  omega

/-- The tokens of a first line are on it, and their positions are their columns. -/
theorem columns_first (hline : '\n' ∉ cs) (more : List Char) (first number : Nat) :
    (((Cursor.placed ⟨cs, 0, first⟩).filter fun (_, t) => t.line = number).map fun (pos, t) =>
        (columnAt (cs ++ more) pos, t)) =
      if number = first then Cursor.placed ⟨cs, 0, first⟩ else [] := by
  split
  · next hnumber =>
    have hfilter : (Cursor.placed ⟨cs, 0, first⟩).filter (fun (_, t) => t.line = number) =
        Cursor.placed ⟨cs, 0, first⟩ := by
      refine List.filter_eq_self.mpr fun entry hentry => ?_
      simpa [hnumber] using line_of_mem_placed hline hentry
    rw [hfilter]
    refine (List.map_congr_left fun entry hentry => ?_).trans (List.map_id _)
    have hpos := (Cursor.le_of_mem_placed cs 0 first entry hentry).2
    rw [Nat.zero_add] at hpos
    exact Prod.ext (columnAt_of_le hline hpos more) rfl
  · next hnumber =>
    rw [List.map_eq_nil_iff, List.filter_eq_nil_iff]
    intro entry hentry
    simpa [line_of_mem_placed hline hentry] using Ne.symm hnumber

/-- A text without line feeds has its tokens on its first line. -/
theorem tokensOn_of_line (hline : '\n' ∉ cs) (first number : Nat) :
    tokensOn first cs number = if number = first then Cursor.placed ⟨cs, 0, first⟩ else [] := by
  have h := columns_first hline [] first number
  rw [List.append_nil] at h
  exact h

/-- A text has the tokens of its first line on it, and then those of the lines behind it. -/
theorem tokensOn_append_newline (hline : '\n' ∉ cs) (more : List Char) (first number : Nat) :
    tokensOn first (cs ++ '\n' :: more) number =
      (if number = first then Cursor.placed ⟨cs, 0, first⟩ else []) ++
        tokensOn (first + 1) more number := by
  have hend : (scanFrom first cs).endLine = first := by
    rw [endLine_scanFrom, List.count_eq_zero_of_not_mem hline, Nat.add_zero]
  rw [tokensOn, Cursor.placed_append_newline, List.filter_append, List.map_append,
    columns_first hline, hend, Nat.add_assoc, Cursor.placed_add, List.filter_map, List.map_map,
    tokensOn]
  refine congrArg _ (List.map_congr_left fun entry _ => ?_)
  exact Prod.ext (columnAt_append_newline cs more entry.1) rfl

/-- Before its first line a text has no tokens. -/
theorem tokensOn_of_lt (h : number < first) (cs : List Char) : tokensOn first cs number = [] := by
  rw [tokensOn, List.map_eq_nil_iff, List.filter_eq_nil_iff]
  intro entry hentry
  have hle := ((line_mem_scanFrom first cs).2 _ (Cursor.mem_tokens_of_placed hentry)).1
  simp only [decide_eq_true_eq]
  omega

end Lines

/-- Different styles have different names. -/
theorem Style.code_injective : Function.Injective Style.code := by
  intro style style' h
  cases style <;> cases style' <;> simp_all [Style.code]

namespace Highlight

/-- The spans, the first of which begins at a column, are those of the given tokens, each of them at
its column and in its style; the other spans are blanks without a style, and the last one may be a
comment. -/
inductive LaidOut : Nat → List (Nat × Token) → List Span → Prop
  | nil {column : Nat} : LaidOut column [] []
  | blank {column : Nat} {text : String} {entries : List (Nat × Token)} {spans : List Span} :
    (∀ c ∈ text.toList, c ∈ [' ', '\t', '\r', '\n']) →
    LaidOut (column + text.length) entries spans →
    LaidOut column entries (⟨.plain, text⟩ :: spans)
  | token {column : Nat} {t : Token} {span : Span} {entries : List (Nat × Token)}
    {spans : List Span} :
    Shows t span → LaidOut (column + t.text.length) entries spans →
    LaidOut column ((column, t) :: entries) (span :: spans)
  | comment {column : Nat} {text : String} {comment : List Char} :
    text.toList = '#' :: comment → LaidOut column [] [⟨.comment, text⟩]

section Line

variable {cs gap after : List Char} {column : Nat} {entries : List (Nat × Token)}
  {spans : List Span}

/-- On a line a gap is a run of blanks, or it is the last one and a comment stands behind the
blanks. -/
theorem blanks_of_isGap (h : IsGap after gap) (hline : '\n' ∉ gap ++ after) :
    gap.all isSpace = true ∨
      after = [] ∧ ∃ blank comment, gap = blank ++ '#' :: comment ∧ blank.all isSpace = true := by
  induction h with
  | nil => exact .inl rfl
  | @blank c gap hc _ ih =>
    have hrest : '\n' ∉ gap ++ after := fun hmem => hline (List.mem_cons_of_mem c hmem)
    obtain hblank | ⟨hafter, blank, comment, rfl, hblank⟩ := ih hrest
    · exact .inl (by rw [List.all_cons, hc, hblank]; rfl)
    · exact .inr ⟨hafter, c :: blank, comment, rfl, by rw [List.all_cons, hc, hblank]; rfl⟩
  | @comment comment gap _ hend _ _ =>
    have hrest : '\n' ∉ gap ++ after := by
      rw [List.cons_append, List.append_assoc] at hline
      exact fun hmem => hline (List.mem_cons_of_mem _ (List.mem_append_right _ hmem))
    -- A comment ends in a line feed or where the text does, and there is no line feed.
    have hnil : gap ++ after = [] := by
      cases htext : gap ++ after with
      | nil => rfl
      | cons c text =>
        rw [htext] at hend hrest
        rw [hend c rfl] at hrest
        exact absurd List.mem_cons_self hrest
    obtain ⟨rfl, rfl⟩ := List.append_eq_nil_iff.mp hnil
    exact .inr ⟨rfl, [], comment ++ [], rfl, rfl⟩

/-- The blanks are these characters. -/
theorem mem_of_isSpace {c : Char} (h : isSpace c = true) : c ∈ [' ', '\t', '\r', '\n'] := by
  simpa [isSpace, or_assoc] using h

/-- A run of blanks holds no `#`. -/
theorem hash_notMem_of_blanks (h : gap.all isSpace = true) : '#' ∉ gap := by
  intro hmem
  cases List.all_eq_true.mp h '#' hmem

/-- Blanks may stand before what is laid out behind them. -/
theorem LaidOut.spansBetween_append (h : LaidOut (column + gap.length) entries spans)
    (hblank : gap.all isSpace = true) : LaidOut column entries (spansBetween gap ++ spans) := by
  rw [spansBetween]
  split
  · next hempty =>
    rw [List.isEmpty_iff.mp hempty] at h
    exact h
  · rw [gapSpans_of_notMem (hash_notMem_of_blanks hblank)]
    refine .blank (fun c hc => ?_) (by rwa [String.length_ofList])
    rw [String.toList_ofList] at hc
    exact mem_of_isSpace (List.all_eq_true.mp hblank c hc)

/-- What stands behind the last token of a line is laid out. -/
theorem laidOut_last (h : IsGap [] gap) (hline : '\n' ∉ gap) (column : Nat) :
    LaidOut column [] (spansBetween gap) := by
  obtain hblank | ⟨-, blank, comment, rfl, hblank⟩ := blanks_of_isGap h (by simpa using hline)
  · have hnil : LaidOut (column + gap.length) [] [] := .nil
    have hlaid := hnil.spansBetween_append hblank
    rwa [List.append_nil] at hlaid
  · rw [spansBetween, if_neg (by simp), gapSpans_of_comment (hash_notMem_of_blanks hblank)]
    have hcomment : LaidOut (column + blank.length) []
        [⟨.comment, String.ofList ('#' :: comment)⟩] := .comment String.toList_ofList
    exact hcomment.spansBetween_append hblank

/-- Behind blanks a token is found where it is. -/
theorem cutAtFirst_of_blanks {c : Char} (hblank : gap.all isSpace = true)
    (hc : isSpace c = false) (part after : List Char) :
    cutAtFirst (c :: part) (gap ++ c :: part ++ after) = some (gap, after) := by
  induction gap with
  | nil =>
    have hprefix : (c :: part).isPrefixOf (c :: (part ++ after)) = true :=
      List.isPrefixOf_iff_prefix.mpr (List.prefix_append (c :: part) after)
    rw [List.nil_append, List.cons_append, cutAtFirst, if_pos hprefix, ← List.cons_append,
      List.drop_left]
  | cons d gap ih =>
    rw [List.all_cons, Bool.and_eq_true] at hblank
    have hne : c ≠ d := by
      rintro rfl
      rw [hc] at hblank
      cases hblank.1
    have hprefix : ¬(c :: part).isPrefixOf (d :: (gap ++ c :: part ++ after)) = true := by
      simp [List.isPrefixOf, hne]
    rw [List.cons_append, List.cons_append, cutAtFirst, if_neg hprefix, ih hblank.2]
    rfl

/-- The spans of a line are those of its tokens, each at its place, whatever the number of the
line. -/
theorem laidOut_spansOf (hline : '\n' ∉ cs) (column line line' : Nat) :
    LaidOut column (Cursor.placed ⟨cs, column, line⟩) (spansOf cs (scanFrom line' cs).tokens) := by
  induction line', cs using scanFrom.induct generalizing column line with
  | case1 line' cs gap hgap =>
    have hcs := eq_of_splitGap hgap
    subst hcs
    rw [Cursor.placed_of_gap hgap, scanFrom_of_gap hgap, spansOf_nil]
    exact laidOut_last (isGap_of_splitGap hgap) hline column
  | case2 line' cs gap c rest hgap lexeme ih =>
    have hcs : gap ++ lexeme.text ++ lexeme.rest = cs := append_of_splitGap hgap
    have hsplit : gap ++ c :: rest = cs := by simpa only [hgap] using splitGap_append false cs
    have hblank : gap.all isSpace = true := by
      obtain hblank | ⟨hafter, -⟩ := blanks_of_isGap (isGap_of_splitGap hgap) (hsplit ▸ hline)
      · exact hblank
      · cases hafter
    have hfound : cutAtFirst lexeme.text cs = some (gap, lexeme.rest) := by
      have hcut := cutAtFirst_of_blanks hblank (apart_of_splitGap hgap).1 lexeme.text.tail
        lexeme.rest
      rwa [munch_text, hcs] at hcut
    rw [Cursor.placed_of_gap_cons hgap, scanFrom_of_gap_cons hgap,
      spansOf_cons (by rwa [String.toList_ofList])]
    refine LaidOut.spansBetween_append (.token (shows_iff.mpr rfl) ?_) hblank
    have hrest : '\n' ∉ lexeme.rest := by
      rw [← hcs] at hline
      exact fun hmem => hline (List.mem_append_right _ hmem)
    rw [String.length_ofList]
    exact ih hrest _ _

/-- A line by itself is laid out as it is on any line of a text. -/
theorem laidOut_line (hline : '\n' ∉ cs) (number : Nat) :
    LaidOut 0 (Cursor.placed ⟨cs, 0, number⟩) (line (String.ofList cs)) := by
  rw [line]
  split
  · next hempty =>
    have hcs : cs = [] := by simpa using hempty
    subst hcs
    rw [Cursor.placed_of_gap (rfl : splitGap false [] = ([], []))]
    exact .blank (List.forall_mem_nil _) .nil
  · rw [tokenStream, String.toList_ofList]
    exact laidOut_spansOf hline 0 number 1

end Line

section Document

variable {cs : List Char}

/-- The lines of a text are what stands before, between and behind its line feeds. -/
theorem splitLines_eq_splitOn (cs : List Char) : splitLines cs = cs.splitOn '\n' := by
  induction cs with
  | nil => rfl
  | cons c cs ih =>
    rw [splitLines, ih, List.splitOn_cons_eq_if_modifyHead]
    cases hlines : cs.splitOn '\n' with
    | nil => exact absurd hlines (List.splitOn_ne_nil '\n' cs)
    | cons first others => rfl

/-- A text without line feeds is one line. -/
theorem splitLines_of_notMem (h : '\n' ∉ cs) : splitLines cs = [cs] := by
  rw [splitLines_eq_splitOn, List.splitOn_eq_singleton h]

/-- Up to the first line feed extends the first line. -/
theorem splitLines_append_newline (h : '\n' ∉ cs) (more : List Char) :
    splitLines (cs ++ '\n' :: more) = cs :: splitLines more := by
  rw [splitLines_eq_splitOn, splitLines_eq_splitOn, List.splitOn_append_cons_self_of_not_mem h]

/-- Every line of a text is laid out with the tokens that the text has on it. -/
theorem laidOut_documentLine (cs : List Char) (first i : Nat) :
    LaidOut 0 (tokensOn first cs (first + i)) (documentLine (String.ofList cs) i) := by
  induction i generalizing cs first with
  | zero =>
    by_cases hmem : '\n' ∈ cs
    · obtain ⟨head, more, rfl, hhead⟩ := List.eq_append_cons_of_mem hmem
      have hlines : documentLine (String.ofList (head ++ '\n' :: more)) 0 =
          line (String.ofList head) := by
        rw [documentLine, String.toList_ofList, splitLines_append_newline hhead]
        rfl
      rw [hlines, Nat.add_zero, tokensOn_append_newline hhead, if_pos rfl,
        tokensOn_of_lt (Nat.lt_succ_self first), List.append_nil]
      exact laidOut_line hhead first
    · have hlines : documentLine (String.ofList cs) 0 = line (String.ofList cs) := by
        rw [documentLine, String.toList_ofList, splitLines_of_notMem hmem]
        rfl
      rw [hlines, Nat.add_zero, tokensOn_of_line hmem, if_pos rfl]
      exact laidOut_line hmem first
  | succ i ih =>
    by_cases hmem : '\n' ∈ cs
    · obtain ⟨head, more, rfl, hhead⟩ := List.eq_append_cons_of_mem hmem
      have hlines : documentLine (String.ofList (head ++ '\n' :: more)) (i + 1) =
          documentLine (String.ofList more) i := by
        rw [documentLine, documentLine, String.toList_ofList, String.toList_ofList,
          splitLines_append_newline hhead]
        rfl
      rw [hlines, tokensOn_append_newline hhead, if_neg (by omega), List.nil_append,
        Nat.add_comm i, ← Nat.add_assoc]
      exact ih more (first + 1)
    · have hlines : documentLine (String.ofList cs) (i + 1) = [⟨.plain, ""⟩] := by
        rw [documentLine, String.toList_ofList, splitLines_of_notMem hmem]
        rfl
      rw [hlines, tokensOn_of_line hmem, if_neg (by omega)]
      exact .blank (List.forall_mem_nil _) .nil

end Document

/-- Highlighting line by line shows the tokens of the whole text: the spans of a line are those of
the tokens which the text has on it, in their order, at their columns and in their styles, the other
spans are blanks and at most one comment at the end, and together they make up the line. The style
of blanks has the empty name, and other styles have names that tell them apart. -/
theorem documentLine_agrees (text : String) (i : Nat) :
    LaidOut 0 (tokensOn 1 text.toList (i + 1)) (documentLine text i) ∧
      (tokensOn 1 text.toList (i + 1)).map Prod.snd =
        (tokenStream text).tokens.filter (·.line = i + 1) ∧
      String.join ((documentLine text i).map Span.text) =
        String.ofList ((text.toList.splitOn '\n')[i]?.getD []) ∧
      Style.plain.code = "" ∧ Function.Injective Style.code := by
  refine ⟨?_, ?_, ?_, rfl, Style.code_injective⟩
  · have hlaid := laidOut_documentLine text.toList 1 i
    rwa [String.ofList_toList, Nat.add_comm 1 i] at hlaid
  · rw [tokensOn, List.map_map, tokenStream, ← Cursor.map_snd_placed text.toList 0 1,
      List.filter_map]
    rfl
  · rw [join_text_eq, documentLine, splitLines_eq_splitOn]
    cases (text.toList.splitOn '\n')[i]? with
    | none => rfl
    | some content => rw [shown_line, String.toList_ofList, Option.getD_some]

end Highlight

end EtherLang
