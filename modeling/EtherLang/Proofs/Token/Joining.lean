import EtherLang.Proofs.Token.Pieces

/-!
# Texts joined at line feeds

A line feed lengthens no token and ends every comment. So the tokens of two texts with a line feed
between them are those of the first text and then those of the second, on later lines. For the same
reason a text can be cut behind any of its tokens: the part before the cut has the tokens before it,
whatever is written on the next line.
-/

namespace EtherLang

section Cut

variable {c : Char} {cs gap rest more : List Char}

/-- A gap ends before the character that begins the next token, whatever stands behind that. -/
theorem splitGap_of_cons {inComment : Bool} (h : splitGap inComment cs = (gap, c :: rest))
    (more : List Char) : splitGap inComment (gap ++ c :: more) = (gap, c :: more) := by
  induction cs generalizing inComment gap with
  | nil => cases h
  | cons d cs ih =>
    rw [splitGap] at h
    by_cases hd : (inComment || isSpace d || d == '#') = true
    · rw [if_pos hd] at h
      obtain ⟨rfl, hrest⟩ := Prod.mk.inj h
      have hinner := ih (Prod.ext rfl hrest)
      rw [List.cons_append, splitGap, if_pos hd, hinner]
    · rw [if_neg hd] at h
      cases h
      rw [List.nil_append, splitGap, if_neg hd]

/-- A line feed goes on with a gap and ends the comment in it. -/
theorem splitGap_append_newline {inComment : Bool} (h : (splitGap inComment cs).2 = [])
    (more : List Char) :
    splitGap inComment (cs ++ '\n' :: more) =
      (cs ++ '\n' :: (splitGap false more).1, (splitGap false more).2) := by
  induction cs generalizing inComment with
  | nil =>
    have hspace : (inComment || isSpace '\n' || '\n' == '#') = true := by simp [isSpace]
    have hcomment : ('\n' == '#' || (inComment && '\n' != '\n')) = false := by simp
    rw [List.nil_append, splitGap, if_pos hspace, hcomment]
    rfl
  | cons d cs ih =>
    rw [splitGap] at h
    by_cases hd : (inComment || isSpace d || d == '#') = true
    · rw [if_pos hd] at h
      rw [List.cons_append, splitGap, if_pos hd, ih h]
      rfl
    · rw [if_neg hd] at h
      cases h

/-- No blank is a digit or goes on with a word. -/
theorem isWordChar_of_isSpace (hc : isSpace c = true) : isWordChar c = false := by
  rw [Bool.eq_false_iff]
  intro hword
  rw [(isWordChar_not_gap hword).1] at hc
  cases hc

/-- No operator of two characters ends in a blank. -/
theorem pairKind?_of_isSpace {d : Char} (hd : isSpace d = true) (c : Char) :
    pairKind? c d = none := by
  simp only [isSpace, Bool.or_eq_true, beq_iff_eq] at hd
  obtain ((rfl | rfl) | rfl) | rfl := hd <;> simp [pairKind?]

/-- The second text does not lengthen a token that the first one stands behind: it begins with a
blank, or as the first one does, or it is empty. -/
def KeepsApart (rest more : List Char) : Prop :=
  ∀ d ∈ more.head?, isSpace d = true ∨ rest.head? = some d

/-- What begins a text is behind it not lengthened by a line feed. -/
theorem keepsApart_append_newline (rest more : List Char) :
    KeepsApart rest (rest ++ '\n' :: more) := by
  intro d hd
  cases rest with
  | nil =>
    cases hd
    exact .inl rfl
  | cons e rest => exact .inr hd

/-- A text may be cut short. -/
theorem keepsApart_of_begins (h : more <+: rest) : KeepsApart rest more := by
  intro d hd
  obtain ⟨tail, rfl⟩ := h
  cases more with
  | nil => cases hd
  | cons e more => exact .inr hd

/-- A run of characters of a class ends where it ended before. -/
theorem KeepsApart.run {p : Char → Bool} (h : KeepsApart (cs.dropWhile p) more)
    (hp : ∀ d, isSpace d = true → p d = false) :
    (cs.takeWhile p ++ more).takeWhile p = cs.takeWhile p ∧
      (cs.takeWhile p ++ more).dropWhile p = more := by
  refine takeWhile_append_of_head List.all_takeWhile fun d hd => ?_
  obtain hspace | hhead := h d hd
  · exact hp d hspace
  · have hnot := List.head?_dropWhile_not p cs
    rw [hhead] at hnot
    exact hnot

/-- The longest token stays the longest one before a text that does not lengthen it. -/
theorem munch_of_keepsApart (h : KeepsApart (munch c cs).rest more) :
    munch c ((munch c cs).text.tail ++ more) = ⟨(munch c cs).kind, (munch c cs).text, more⟩ := by
  rw [munch.eq_def] at h ⊢
  rw [munch.eq_def c cs]
  split
  · next hdigit =>
    rw [if_pos hdigit] at h
    obtain ⟨htake, hdrop⟩ := h.run fun d hd =>
      ((Bool.or_eq_false_iff).mp (isWordChar_of_isSpace hd)).2
    rw [List.tail_cons, htake, hdrop]
  · next hdigit =>
    rw [if_neg hdigit] at h
    split
    · next hstart =>
      rw [if_pos hstart] at h
      obtain ⟨htake, hdrop⟩ := h.run fun d hd => isWordChar_of_isSpace hd
      dsimp only [List.tail_cons]
      rw [htake, hdrop]
    · next hstart =>
      rw [if_neg hstart] at h
      cases cs with
      | nil =>
        cases more with
        | nil => rfl
        | cons e more =>
          obtain hspace | hhead := h e rfl
          · simp only [List.tail_cons, List.nil_append, pairKind?_of_isSpace hspace c]
          · cases hhead
      | cons d cs =>
        dsimp only at h ⊢
        cases hpair : pairKind? c d with
        | some kind =>
          simp only [List.tail_cons, List.singleton_append, hpair]
        | none =>
          rw [hpair] at h
          cases more with
          | nil => rfl
          | cons e more =>
            obtain hspace | hhead := h e rfl
            · simp only [List.tail_cons, List.nil_append, pairKind?_of_isSpace hspace c]
            · cases hhead
              simp only [List.tail_cons, List.nil_append, hpair]

/-- A token is its first character and the rest of its text. -/
theorem munch_text (c : Char) (cs : List Char) :
    c :: (munch c cs).text.tail = (munch c cs).text := by
  rw [munch.eq_def]
  split
  · rfl
  · split
    · rfl
    · split
      · rfl
      · split <;> rfl

/-- Behind a gap stands the token that stood there, whatever text follows it that does not lengthen
it. -/
theorem scanFrom_of_keepsApart (h : splitGap false cs = (gap, c :: rest))
    (hmore : KeepsApart (munch c rest).rest more) (line : Nat) :
    scanFrom line (gap ++ (munch c rest).text ++ more) =
      ⟨⟨(munch c rest).kind, String.ofList (munch c rest).text, line + gap.count '\n'⟩ ::
          (scanFrom (line + gap.count '\n') more).tokens,
        (scanFrom (line + gap.count '\n') more).endLine⟩ := by
  have hgap := splitGap_of_cons h ((munch c rest).text.tail ++ more)
  have htext : gap ++ (munch c rest).text ++ more =
      gap ++ c :: ((munch c rest).text.tail ++ more) := by
    rw [List.append_assoc, ← List.cons_append, munch_text]
  rw [htext, scanFrom_of_gap_cons hgap, munch_of_keepsApart hmore]

end Cut

/-- The tokens of two texts with a line feed between them are those of the first text and those of
the second, which begins on the line after the one on which the first ends. -/
theorem scanFrom_append_newline (line : Nat) (cs more : List Char) :
    scanFrom line (cs ++ '\n' :: more) =
      ⟨(scanFrom line cs).tokens ++ (scanFrom ((scanFrom line cs).endLine + 1) more).tokens,
        (scanFrom ((scanFrom line cs).endLine + 1) more).endLine⟩ := by
  fun_induction scanFrom line cs with
  | case1 line cs gap hgap =>
    have hall : (splitGap false cs).2 = [] := congrArg Prod.snd hgap
    have hcs : gap = cs := eq_of_splitGap hgap
    have hjoined := splitGap_append_newline hall more
    have hcount : ∀ gap' : List Char,
        line + (cs ++ '\n' :: gap').count '\n' = line + gap.count '\n' + 1 + gap'.count '\n' := by
      intro gap'
      rw [hcs, List.count_append, List.count_cons_self]
      omega
    rcases hmore : splitGap false more with ⟨gap', rest⟩
    rw [hmore] at hjoined
    cases rest with
    | nil =>
      rw [scanFrom_of_gap hjoined, scanFrom_of_gap hmore, hcount]
      rfl
    | cons d rest =>
      rw [scanFrom_of_gap_cons hjoined, scanFrom_of_gap_cons hmore, hcount]
      rfl
  | case2 line cs gap c rest hgap lexeme after ih =>
    have hcs : gap ++ lexeme.text ++ lexeme.rest = cs := append_of_splitGap hgap
    have hscan := scanFrom_of_keepsApart hgap (keepsApart_append_newline lexeme.rest more) line
    rw [← List.append_assoc, hcs] at hscan
    rw [hscan, ih]
    rfl

/-- A text can be cut behind any of its tokens: some part that it begins with has the tokens up to
there and no others. -/
theorem exists_prefix_of_tokens (line : Nat) (cs : List Char) (us : List Token) :
    ∀ ts, (scanFrom line cs).tokens = ts ++ us →
      ∃ before, before <+: cs ∧ (scanFrom line before).tokens = ts := by
  fun_induction scanFrom line cs with
  | case1 line cs gap hgap =>
    intro ts h
    obtain ⟨rfl, -⟩ := List.append_eq_nil_iff.mp h.symm
    exact ⟨[], List.nil_prefix, scanFrom_nil⟩
  | case2 line cs gap c rest hgap lexeme after ih =>
    intro ts h
    cases ts with
    | nil => exact ⟨[], List.nil_prefix, scanFrom_nil⟩
    | cons t ts =>
      obtain ⟨ht, hafter⟩ := List.cons.inj h
      obtain ⟨before, hbefore, htokens⟩ := ih ts hafter
      have hcs : gap ++ lexeme.text ++ lexeme.rest = cs := append_of_splitGap hgap
      refine ⟨gap ++ lexeme.text ++ before, ?_, ?_⟩
      · rw [← hcs]
        exact List.prefix_append_right_inj _ |>.mpr hbefore
      · rw [scanFrom_of_keepsApart hgap (keepsApart_of_begins hbefore), htokens, ← ht]

/-- The tokens of two texts with a line feed between them. -/
theorem tokenStream_append_newline (a b : String) :
    tokenStream (a ++ "\n" ++ b) =
      ⟨(tokenStream a).tokens ++ (scanFrom ((tokenStream a).endLine + 1) b.toList).tokens,
        (scanFrom ((tokenStream a).endLine + 1) b.toList).endLine⟩ := by
  have htext : (a ++ "\n" ++ b).toList = a.toList ++ '\n' :: b.toList := by simp
  rw [tokenStream, htext, scanFrom_append_newline]
  rfl

end EtherLang
