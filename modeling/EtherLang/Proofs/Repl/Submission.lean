import EtherLang.Ast.Desugar
import EtherLang.Proofs.Surface.Recursion
import EtherLang.Proofs.Token.Pieces
import EtherLang.Repl
import EtherLang.Repl.Editor

/-!
# Which texts the enter key submits

The editor counts the brackets of the text as it was typed, before invisible characters are taken
out of it. It looks neither at the kinds of the brackets nor at the grammar. Still it never holds
back a program: the brackets of everything that the grammar derives are properly nested, and an
invisible character, which may well change the tokens around it, is no bracket and neither opens nor
ends a comment, so that the typed text has the same brackets as the text that is evaluated.
-/

namespace EtherLang

/-- Whether a kind of token is an opening or a closing bracket. -/
def TokenKind.isBracket : TokenKind → Bool
  | .leftParen | .leftBracket | .leftBrace => true
  | .rightParen | .rightBracket | .rightBrace => true
  | _ => false

/-- The kind that closes a kind of opening brackets. -/
def TokenKind.closing? : TokenKind → Option TokenKind
  | .leftParen => some .rightParen
  | .leftBracket => some .rightBracket
  | .leftBrace => some .rightBrace
  | _ => none

/-- The kinds of the brackets among some tokens. -/
def brackets (ts : List Token) : List TokenKind :=
  (ts.map Token.kind).filter TokenKind.isBracket

/-- The brackets are properly nested: each opening one is closed by one of its kind, with properly
nested brackets in between. -/
inductive Nested : List TokenKind → Prop
  | nil : Nested []
  | enclosed {opening closing : TokenKind} {inner rest : List TokenKind} :
    opening.closing? = some closing → Nested inner → Nested rest →
    Nested (opening :: (inner ++ closing :: rest))

section Brackets

variable {t : Token} {ts us : List Token} {ks ls : List TokenKind}

/-- No tokens have no brackets. -/
@[simp] theorem brackets_nil : brackets [] = [] :=
  rfl

/-- The brackets of tokens one after the other. -/
@[simp] theorem brackets_append : brackets (ts ++ us) = brackets ts ++ brackets us := by
  simp [brackets]

/-- A first token counts if it is a bracket. -/
theorem brackets_cons :
    brackets (t :: ts) = if t.kind.isBracket then t.kind :: brackets ts else brackets ts := by
  simp [brackets, List.filter_cons]

/-- A token that is no bracket does not count. -/
theorem brackets_cons_of_not (h : t.kind.isBracket = false) : brackets (t :: ts) = brackets ts := by
  simp [brackets_cons, h]

/-- Properly nested brackets one after the other are properly nested. -/
theorem Nested.append (hks : Nested ks) (hls : Nested ls) : Nested (ks ++ ls) := by
  induction hks with
  | nil => exact hls
  | enclosed hclosing hinner _ _ ih =>
    rw [List.cons_append, List.append_assoc, List.cons_append]
    exact .enclosed hclosing hinner ih

/-- Properly nested brackets in a pair of brackets are properly nested. -/
theorem Nested.between {close : Token} (hts : Nested (brackets ts))
    (hclosing : t.kind.closing? = some close.kind) :
    Nested (brackets (t :: (ts ++ [close]))) := by
  have hopen : t.kind.isBracket = true := by
    cases hkind : t.kind <;> rw [hkind] at hclosing <;> first | rfl | cases hclosing
  have hclose : close.kind.isBracket = true := by
    cases hkind : t.kind <;> rw [hkind] at hclosing <;>
      first | exact (Option.some.inj hclosing) ▸ rfl | cases hclosing
  rw [brackets_cons, if_pos hopen, brackets_append, brackets_cons, if_pos hclose]
  exact .enclosed hclosing hts .nil

end Brackets

namespace Surface.Grammar

/-- The parameters of a function have no brackets. -/
theorem Names.brackets_eq_nil {ts : List Token} {names : List Ident} (h : Names ts names) :
    brackets ts = [] := by
  induction h with
  | last hname => rw [brackets_cons_of_not (by rw [hname]; rfl), brackets_nil]
  | cons hname hcomma _ ih =>
    rw [brackets_cons_of_not (by rw [hname]; rfl), brackets_cons_of_not (by rw [hcomma]; rfl), ih]

/-- What stands between the bars of a function has no brackets. -/
theorem Params.brackets_eq_nil {ts : List Token} {names : List Ident} (h : Params ts names) :
    brackets ts = [] := by
  cases h with
  | none => rfl
  | some hnames => exact hnames.brackets_eq_nil

mutual

/-- The brackets of an expression are properly nested. -/
theorem derives_nested {s : Stratum} {ts : List Token} {e : Expr} (h : Derives s ts e) :
    Nested (brackets ts) := by
  match h with
  | .arrow hl ht hr =>
    rw [brackets_append, brackets_cons_of_not (by rw [ht]; rfl)]
    exact (derives_nested hl).append (derives_nested hr)
  | .binary op hl ht hr =>
    rw [brackets_append, brackets_cons_of_not (by rw [ht]; cases op <;> rfl)]
    exact (derives_nested hl).append (derives_nested hr)
  | .unary op ht he =>
    rw [brackets_cons_of_not (by rw [ht]; cases op <;> rfl)]
    exact derives_nested he
  | .call hcallee ht hargs hclose =>
    rw [brackets_append]
    exact (derives_nested hcallee).append ((args_nested hargs).between (by rw [ht, hclose]; rfl))
  | .index harray ht hindex hclose =>
    rw [brackets_append]
    exact (derives_nested harray).append ((derives_nested hindex).between (by rw [ht, hclose]; rfl))
  | .integer ht _ | .kwTrue ht | .kwFalse ht | .ident ht =>
    rw [brackets_cons_of_not (by rw [ht]; rfl)]
    exact .nil
  | .group ht he hclose => exact (derives_nested he).between (by rw [ht, hclose]; rfl)
  | .function ht hparams hclose hbody =>
    rw [brackets_cons_of_not (by rw [ht]; rfl), brackets_append, hparams.brackets_eq_nil,
      brackets_cons_of_not (by rw [hclose]; rfl)]
    exact braces_nested hbody
  | .array ht helements hclose => exact (args_nested helements).between (by rw [ht, hclose]; rfl)
  | .cond ht hcondition hconsequence =>
    rw [brackets_cons_of_not (by rw [ht]; rfl), brackets_append]
    exact (derives_nested hcondition).append (braces_nested hconsequence)
  | .condElse ht hcondition hconsequence hu halternative =>
    rw [brackets_cons_of_not (by rw [ht]; rfl), brackets_append, brackets_append,
      brackets_cons_of_not (by rw [hu]; rfl)]
    have hblocks := (braces_nested hconsequence).append (braces_nested halternative)
    exact (derives_nested hcondition).append hblocks
  | .climb _ he => exact derives_nested he
termination_by structural h

/-- The brackets of one or more expressions are properly nested. -/
theorem items_nested {ts : List Token} {es : List Expr} (h : Items ts es) :
    Nested (brackets ts) := by
  match h with
  | .last he => exact derives_nested he
  | .cons he hcomma hes =>
    rw [brackets_append, brackets_cons_of_not (by rw [hcomma]; rfl)]
    exact (derives_nested he).append (items_nested hes)
termination_by structural h

/-- The brackets of arguments are properly nested. -/
theorem args_nested {ts : List Token} {es : List Expr} (h : Args ts es) :
    Nested (brackets ts) := by
  match h with
  | .none => exact .nil
  | .some hes => exact items_nested hes
termination_by structural h

/-- The brackets of a block are properly nested. -/
theorem braces_nested {ts : List Token} {b : Block} (h : Braces ts b) : Nested (brackets ts) := by
  match h with
  | .mk ht hss hclose => exact (statements_nested hss).between (by rw [ht, hclose]; rfl)
termination_by structural h

/-- The brackets of a statement are properly nested. -/
theorem statement_nested {ts : List Token} {s : Stmt} (h : Statement ts s) :
    Nested (brackets ts) := by
  match h with
  | .var ht hname hequals he =>
    rw [brackets_cons_of_not (by rw [ht]; rfl), brackets_cons_of_not (by rw [hname]; rfl),
      brackets_cons_of_not (by rw [hequals]; rfl)]
    exact derives_nested he
  | .ret ht he =>
    rw [brackets_cons_of_not (by rw [ht]; rfl)]
    exact derives_nested he
  | .expr he => exact derives_nested he
termination_by structural h

/-- The brackets of statements are properly nested. -/
theorem statements_nested {ts : List Token} {ss : List Stmt} (h : Statements ts ss) :
    Nested (brackets ts) := by
  match h with
  | .nil => exact .nil
  | .last hs => exact statement_nested hs
  | .cons hs hsemicolon hss =>
    rw [brackets_append, brackets_cons_of_not (by rw [hsemicolon]; rfl)]
    exact (statement_nested hs).append (statements_nested hss)
  | .closed hs _ _ hss =>
    rw [brackets_append]
    exact (statement_nested hs).append (statements_nested hss)
termination_by structural h

end

end Surface.Grammar

section Text

variable {c : Char} {cs ds : List Char} {inComment : Bool}

/-- The brackets of a text that stand outside of comments; `inComment` tells whether the text begins
inside one. -/
def textBrackets (inComment : Bool) : List Char → List TokenKind
  | [] => []
  | c :: cs =>
    if inComment then textBrackets (c != '\n') cs
    else if c = '#' then textBrackets true cs
    else if (charKind c).isBracket then charKind c :: textBrackets false cs
    else textBrackets false cs

/-- The characters that are no brackets and open no comments. -/
def isBare (c : Char) : Bool :=
  c != '#' && !(charKind c).isBracket

/-- Bare characters do not count. -/
theorem textBrackets_append_of_bare (h : ds.all isBare = true) :
    textBrackets false (ds ++ cs) = textBrackets false cs := by
  induction ds with
  | nil => rfl
  | cons d ds ih =>
    rw [List.all_cons, Bool.and_eq_true] at h
    have hd : d ≠ '#' ∧ (charKind d).isBracket = false := by simpa [isBare] using h.1
    simp [textBrackets, hd.1, hd.2, ih h.2]

/-- The brackets behind a gap are those of the text. -/
theorem textBrackets_splitGap (inComment : Bool) (cs : List Char) :
    textBrackets inComment cs = textBrackets false (splitGap inComment cs).2 := by
  induction cs generalizing inComment with
  | nil => rfl
  | cons c cs ih =>
    by_cases hgap : (inComment || isSpace c || c == '#') = true
    · rw [splitGap, if_pos hgap, ← ih]
      cases inComment with
      | true => by_cases hhash : c = '#' <;> simp [textBrackets, hhash, bne, beq_false_of_ne]
      | false =>
        by_cases hhash : c = '#'
        · simp [textBrackets, hhash]
        · have hspace : isSpace c = true := by simpa [hhash] using hgap
          have hbracket : (charKind c).isBracket = false := by
            simp only [isSpace, Bool.or_eq_true, beq_iff_eq] at hspace
            obtain ((rfl | rfl) | rfl) | rfl := hspace <;> rfl
          simp [textBrackets, hhash, hbracket, beq_false_of_ne]
    · rw [splitGap, if_neg hgap]
      simp only [Bool.or_eq_true, not_or, Bool.not_eq_true] at hgap
      rw [hgap.1.1]

/-- No word character is a bracket or opens a comment. -/
theorem isBare_of_isWordChar (hc : isWordChar c = true) : isBare c = true := by
  have hbracket : (charKind c).isBracket = false := by
    unfold charKind
    split <;> first | rfl | cases hc
  simp [isBare, (isWordChar_not_gap hc).2, hbracket]

/-- No keyword and no name is a bracket. -/
theorem isBracket_wordKind (word : String) : (wordKind word).isBracket = false := by
  unfold wordKind
  split <;> rfl

/-- A run of word characters has no brackets. -/
theorem textBrackets_run {p : Char → Bool} (hp : ∀ d, p d = true → isWordChar d = true)
    (hc : isWordChar c = true) :
    textBrackets false (c :: cs) = textBrackets false (cs.dropWhile p) := by
  have hbare : (c :: cs.takeWhile p).all isBare = true := by
    rw [List.all_cons, isBare_of_isWordChar hc, Bool.true_and, List.all_eq_true]
    intro d hd
    exact isBare_of_isWordChar (hp d (List.all_eq_true.mp List.all_takeWhile d hd))
  have hskip : textBrackets false (c :: cs.takeWhile p ++ cs.dropWhile p) =
      textBrackets false (cs.dropWhile p) := textBrackets_append_of_bare hbare
  rwa [List.cons_append, List.takeWhile_append_dropWhile] at hskip

/-- A single character counts if it is a bracket. -/
theorem textBrackets_cons (hhash : c ≠ '#') :
    textBrackets false (c :: cs) =
      (if (charKind c).isBracket then [charKind c] else []) ++ textBrackets false cs := by
  by_cases hbracket : (charKind c).isBracket = true <;> simp [textBrackets, hhash, hbracket]

/-- An operator of two characters has no brackets and is none. -/
theorem isBare_of_pairKind? {d : Char} {kind : TokenKind} (h : pairKind? c d = some kind) :
    isBare c = true ∧ isBare d = true ∧ kind.isBracket = false := by
  unfold pairKind? at h
  simp only [Bool.and_eq_true, beq_iff_eq] at h
  split at h
  · next hpair => cases h; rw [hpair.1, hpair.2]; decide
  · split at h
    · next hpair => cases h; rw [hpair.1, hpair.2]; decide
    · split at h
      · next hpair => cases h; rw [hpair.1, hpair.2]; decide
      · cases h

/-- The brackets of a text are its first token, if that is one, and those behind it. -/
theorem textBrackets_munch (hhash : c ≠ '#') :
    textBrackets false (c :: cs) =
      (if (munch c cs).kind.isBracket then [(munch c cs).kind] else []) ++
        textBrackets false (munch c cs).rest := by
  rw [munch.eq_def]
  split
  · next hdigit =>
    exact textBrackets_run (fun d hd => by simp [isWordChar, hd]) (by simp [isWordChar, hdigit])
  · split
    · next hstart =>
      simp only [isBracket_wordKind]
      exact textBrackets_run (fun d hd => hd) (by simp [isWordChar, hstart])
    · cases cs with
      | nil => exact textBrackets_cons hhash
      | cons d rest =>
        obtain hpair | ⟨kind, hpair⟩ := Option.eq_none_or_eq_some (pairKind? c d)
        · simp only [hpair]
          exact textBrackets_cons hhash
        · obtain ⟨hc, hd, hkind⟩ := isBare_of_pairKind? hpair
          have hbare : [c, d].all isBare = true := by simp [hc, hd]
          simpa [hpair, hkind] using textBrackets_append_of_bare hbare

/-- The brackets among the tokens of a text are those of the text outside of its comments. -/
theorem brackets_scanFrom (line : Nat) (cs : List Char) :
    brackets (scanFrom line cs).tokens = textBrackets false cs := by
  fun_induction scanFrom line cs with
  | case1 line cs gap hgap => rw [textBrackets_splitGap, hgap]; rfl
  | case2 line cs gap c rest hgap lexeme after ih =>
    rw [brackets_cons, textBrackets_splitGap, hgap, textBrackets_munch (apart_of_splitGap hgap).2,
      ih]
    dsimp only [lexeme]
    split <;> rfl

/-- Invisible characters are no brackets, and they neither open nor end comments. -/
theorem textBrackets_filter_invisible (inComment : Bool) (cs : List Char) :
    textBrackets inComment (cs.filter (!Repl.isInvisible ·)) = textBrackets inComment cs := by
  induction cs generalizing inComment with
  | nil => rfl
  | cons c cs ih =>
    cases hc : Repl.isInvisible c with
    | false => simp [hc, textBrackets, ih]
    | true =>
      have hplain : c ≠ '\n' ∧ c ≠ '#' ∧ (charKind c).isBracket = false := by
        simp only [Repl.isInvisible, List.contains_eq_mem, decide_eq_true_eq, List.mem_cons,
          List.not_mem_nil, or_false] at hc
        obtain rfl | rfl | rfl | rfl | rfl | rfl := hc <;> decide
      have hline : (c != '\n') = true := bne_iff_ne.mpr hplain.1
      cases inComment <;> simp [hc, textBrackets, ih, hplain, hline]

/-- A text as it was typed has the brackets of the text that is evaluated. -/
theorem brackets_normalize (text : String) :
    brackets (tokenStream (Repl.normalize text)).tokens = brackets (tokenStream text).tokens := by
  rw [tokenStream, tokenStream, brackets_scanFrom, brackets_scanFrom, Repl.normalize,
    String.toList_ofList, textBrackets_filter_invisible]

end Text

namespace Editor

/-- The number of open brackets is determined by the brackets among the tokens. -/
theorem foldl_bracketStep (depth : Nat) (ts : List Token) :
    ts.foldl bracketStep depth =
      (brackets ts).foldl (fun depth kind => bracketStep depth ⟨kind, "", 0⟩) depth := by
  induction ts generalizing depth with
  | nil => rfl
  | cons t ts ih =>
    obtain ⟨kind, text, line⟩ := t
    rw [List.foldl_cons, ih, brackets_cons]
    cases kind <;> rfl

/-- After properly nested brackets as many are open as before. -/
theorem foldl_of_nested {ks : List TokenKind} (h : Nested ks) (depth : Nat) :
    ks.foldl (fun depth kind => bracketStep depth ⟨kind, "", 0⟩) depth = depth := by
  induction h generalizing depth with
  | nil => rfl
  | @enclosed opening closing inner rest hclosing _ _ ihinner ihrest =>
    rw [List.foldl_cons, List.foldl_append, List.foldl_cons, ihinner, ihrest]
    cases opening <;> cases hclosing <;> rfl

/-- The enter key submits every text that is a program once its invisible characters are taken out:
its brackets are properly nested, so that none is left open. -/
theorem press_enter_of_parse {depth : Depth} {text : String} {p : Ast.Program}
    (h : parse depth (Repl.normalize text) = .ok p) :
    Nested (brackets (tokenStream text).tokens) ∧ openDepth text = 0 ∧
      press text .enter = ⟨text, true, false⟩ := by
  obtain ⟨ss, hss, _⟩ := Surface.Parser.bind_eq_ok h
  have hnested : Nested (brackets (tokenStream text).tokens) := by
    rw [← brackets_normalize]
    exact Surface.Grammar.statements_nested (Surface.Parser.statements_sound hss)
  have hdepth : openDepth text = 0 := by
    rw [openDepth, foldl_bracketStep, foldl_of_nested hnested]
  refine ⟨hnested, hdepth, ?_⟩
  simp [press, hdepth]

/-- A zero-width space joins two letters to a name, and the comment opens a bracket that does not
count. -/
def typedCall : String :=
  "f\u200bg([1], |x| \x7b x \x7d) # (\r["

/-- The call is submitted as it stands. -/
theorem press_enter_of_parse_typedCall :
    let p : Ast.Program := ⟨[.expr (.call (.ident "fg" 1) [.array [.int 1 1] 1,
      .function [⟨"x", 1⟩] (.mk [.expr (.ident "x" 1) 1] 1) 1] 1) 1]⟩
    parse .unbounded (Repl.normalize typedCall) = .ok p ∧
      brackets (tokenStream typedCall).tokens = [.leftParen, .leftBracket, .rightBracket,
        .leftBrace, .rightBrace, .rightParen] ∧
      press typedCall .enter = ⟨typedCall, true, false⟩ := by
  intro p
  have hplain : Repl.normalize typedCall = "fg([1], |x| \x7b x \x7d) # ([" := by decide +kernel
  have htree : Surface.parse .unbounded "fg([1], |x| \x7b x \x7d) # ([" =
      .ok [.expr (.call (.ident "fg" 1) [.array [.integer "1" 1] 1,
        .function [⟨"x", 1⟩] (.mk [.expr (.ident "x" 1) 1] 1) 1] 1) 1] := by
    rw [Surface.parse_eq_unrolled 100]
    with_unfolding_all rfl
  have hp : parse .unbounded (Repl.normalize typedCall) = .ok p := by
    rw [hplain, parse, htree]
    rfl
  have hbrackets : brackets (tokenStream typedCall).tokens = [.leftParen, .leftBracket,
      .rightBracket, .leftBrace, .rightBrace, .rightParen] := by decide +kernel
  exact ⟨hp, hbrackets, (press_enter_of_parse hp).2.2⟩

end Editor

end EtherLang
