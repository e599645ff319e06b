import EtherLang.Proofs.Token.LongestMatch

/-!
# What a cut says about the scan

Scanning cuts a text into gaps and tokens, and every such cut is the one that scanning makes: a gap
is split off as far as it goes, and the longest token is taken behind it. Whether a token is the
longest one at its place can be seen from the next character alone. If that does not make a longer
token, no more characters do.
-/

namespace EtherLang

section Seam

variable {c d : Char} {cs text rest more gap after : List Char}

/-- A text of the grammar can be cut short behind any of its characters but the first. -/
theorem IsLexeme.shorten (h : IsLexeme (text ++ d :: more)) (hne : text ≠ []) :
    IsLexeme (text ++ [d]) := by
  cases text with
  | nil => exact absurd rfl hne
  | cons c cs =>
    rw [List.cons_append] at h
    obtain ⟨hc, hall⟩ | ⟨hc, hall⟩ | ⟨e, kind, hpair, _⟩ | hnil := h.cases_head
    · simp only [List.all_append, List.all_cons, Bool.and_eq_true] at hall
      exact .digits (List.cons_ne_nil _ _) (by simp [hc, hall])
    · simp only [List.all_append, List.all_cons, Bool.and_eq_true] at hall
      exact .word hc (by simp [hall])
    · -- Of two characters there is only one behind the first.
      obtain ⟨rfl, hd⟩ := (List.append_eq_singleton_iff.mp hpair).resolve_right (by simp)
      obtain ⟨rfl, rfl⟩ := List.cons.inj hd
      exact h
    · exact absurd hnil (by simp)

/-- A token is the longest one at its place if the next character does not make a longer one. -/
theorem isLongest_iff (hlexeme : IsLexeme text)
    (hapart : ∀ c ∈ text.head?, isSpace c = false ∧ c ≠ '#') :
    IsLongest text rest ↔ ∀ d ∈ rest.head?, ¬IsLexeme (text ++ [d]) := by
  constructor
  · intro h d hd hlonger
    cases rest with
    | nil => cases hd
    | cons e rest =>
      cases hd
      have hle := h.longest (text ++ [d]) hlonger ⟨rest, by simp⟩
      simp only [List.length_append, List.length_singleton] at hle
      omega
  · intro h
    refine ⟨hlexeme, hapart, fun other hother hbegins => Nat.le_of_not_lt fun hlonger => ?_⟩
    -- A longer text of the grammar goes on behind the token with the next character.
    obtain ⟨more, rfl⟩ := List.prefix_of_prefix_length_le (List.prefix_append text rest) hbegins
      (Nat.le_of_lt hlonger)
    cases more with
    | nil => simp at hlonger
    | cons d more =>
      obtain ⟨tail, htail⟩ := (List.prefix_append_right_inj text).mp hbegins
      have hd : d ∈ rest.head? := by rw [← htail]; rfl
      exact h d hd (hother.shorten hlexeme.ne_nil)

/-- The longest token is the one that is taken. -/
theorem IsLongest.munch_eq (h : IsLongest (c :: cs) rest) :
    munch c (cs ++ rest) = ⟨kindOf (c :: cs), c :: cs, rest⟩ := by
  have happend := munch_append c (cs ++ rest)
  have hkind := kindOf_munch c (cs ++ rest)
  have hlexeme := isLexeme_munch c (cs ++ rest)
  have hge := length_le_munch h.lexeme (List.prefix_append (c :: cs) rest)
  generalize munch c (cs ++ rest) = taken at happend hkind hlexeme hge ⊢
  obtain ⟨kind, text, behind⟩ := taken
  have hle : text.length ≤ (c :: cs).length :=
    h.longest text hlexeme ⟨behind, happend⟩
  have hwhole : text ++ behind = (c :: cs) ++ rest := happend
  obtain ⟨rfl, rfl⟩ := List.append_inj hwhole (Nat.le_antisymm hle hge)
  rw [hkind]

/-- A comment is split off up to the line feed that ends it. -/
theorem splitGap_comment (hfree : '\n' ∉ more) (hend : ∀ c ∈ cs.head?, c = '\n') :
    splitGap true (more ++ cs) = (more ++ (splitGap false cs).1, (splitGap false cs).2) := by
  induction more with
  | nil =>
    cases cs with
    | nil => rfl
    | cons c cs =>
      obtain rfl := hend c rfl
      rfl
  | cons d more ih =>
    rw [List.mem_cons, not_or] at hfree
    have hopen : (d == '#' || (true && d != '\n')) = true := by simp [Ne.symm hfree.1]
    rw [List.cons_append, splitGap, if_pos (by simp), hopen, ih hfree.2]
    rfl

/-- A gap is split off from what begins none. -/
theorem IsGap.splitGap_eq (h : IsGap after gap)
    (hafter : ∀ c ∈ after.head?, isSpace c = false ∧ c ≠ '#') :
    splitGap false (gap ++ after) = (gap, after) := by
  induction h with
  | nil =>
    cases after with
    | nil => rfl
    | cons c after =>
      obtain ⟨hspace, hhash⟩ := hafter c rfl
      rw [List.nil_append, splitGap, if_neg (by simp [hspace, hhash])]
  | @blank c gap hspace _ ih =>
    rw [List.cons_append, splitGap_space hspace, ih]
  | @comment comment gap hfree hend _ ih =>
    have hrest := splitGap_comment hfree hend
    rw [ih] at hrest
    rw [List.cons_append, List.append_assoc, splitGap, if_pos (by simp)]
    simp only [beq_self_eq_true, Bool.true_or, hrest]

end Seam

section Cut

variable {line : Nat} {cs last : List Char} {piece : Piece} {pieces : List Piece}

/-- The first piece of a cut, and the cut of the text behind it. -/
theorem IsCutInto.uncons (h : IsCutInto line cs (piece :: pieces) last) :
    piece.IsCut line [] (spell pieces ++ last) ∧
      IsCutInto (line + piece.gap.count '\n') (spell pieces ++ last) pieces last := by
  have hpiece := h.cut [] piece pieces rfl
  refine ⟨hpiece, rfl, h.gap, fun before other after hsplit => ?_⟩
  have hcut := h.cut (piece :: before) other after (by rw [hsplit]; rfl)
  refine ⟨hcut.gap, hcut.longest, hcut.kind, ?_⟩
  have hline := List.count_eq_zero_of_not_mem hpiece.longest.newline_notMem
  rw [hcut.line, spell_cons]
  simp only [List.count_append, hline]
  omega

/-- What stands behind the gap of a piece is split off from it. -/
theorem Piece.IsCut.splitGap_eq {before after : List Char} (h : piece.IsCut line before after) :
    splitGap false (piece.gap ++ (piece.token.text.toList ++ after)) =
      (piece.gap, piece.token.text.toList ++ after) := by
  obtain ⟨c, cs, htext⟩ := List.exists_cons_of_ne_nil h.longest.lexeme.ne_nil
  have hapart := h.longest.apart
  rw [htext] at hapart
  exact h.gap.splitGap_eq (htext ▸ hapart)

end Cut

end EtherLang
