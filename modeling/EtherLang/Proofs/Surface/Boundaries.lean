import EtherLang.Proofs.Surface.Recursion

/-!
# What stands between statements

Where one statement ends and the next one of its list begins can be seen from the tokens, with one
exception. Either a semicolon stands between the two, or the first ends in the brace of an `if`, or
the first is an `if` in parentheses. Parentheses leave no trace in a tree, and whether a statement
needs a semicolon is told by its tree. So a semicolon may be missing behind the last parenthesis as
well as behind the brace.
-/

namespace EtherLang.Surface

namespace Grammar

/-- The tokens are those of an `if` in so many pairs of parentheses. -/
inductive GroupedIf : Nat → List Token → Prop
  | bare {t close : Token} {ts : List Token} :
    t.kind = .kwIf → close.kind = .rightBrace → GroupedIf 0 (t :: (ts ++ [close]))
  | group {n : Nat} {t close : Token} {ts : List Token} :
    t.kind = .leftParen → GroupedIf n ts → close.kind = .rightParen →
    GroupedIf (n + 1) (t :: (ts ++ [close]))

/-- What may stand between a statement with the tokens and the next statement. -/
inductive Boundary (ts : List Token) : List Token → Prop
  | semicolon {t : Token} : t.kind = .semicolon → Boundary ts [t]
  | brace {us : List Token} {close : Token} :
    ts = us ++ [close] → close.kind = .rightBrace → Boundary ts []
  | group {n : Nat} : GroupedIf (n + 1) ts → Boundary ts []

/-- Wherever one of the statements follows another, the tokens are those of the statements before,
of the first of the two, of a boundary and of the rest. -/
def Bounded (ts : List Token) (ss : List Stmt) : Prop :=
  ∀ before s next after, ss = before ++ s :: next :: after →
    ∃ pre us between rest, ts = pre ++ (us ++ (between ++ rest)) ∧ Statements pre before ∧
      Statement us s ∧ Boundary us between ∧ Statements rest (next :: after)

section Boundary

variable {n : Nat} {ts us : List Token} {s : Stmt} {ss : List Stmt}

/-- A block ends in its closing brace. -/
theorem Braces.exists_last {body : Block} (h : Braces ts body) :
    ∃ us close, ts = us ++ [close] ∧ close.kind = .rightBrace := by
  cases h with
  | @mk us t close _ _ _ hclose => exact ⟨t :: us, close, rfl, hclose⟩

/-- An expression whose tree is an `if` is an `if` in parentheses, or in none. -/
theorem Derives.exists_groupedIf {s : Stratum} {ts : List Token} {e : Expr} (h : Derives s ts e)
    (he : e.isCond = true) : ∃ n, GroupedIf n ts := by
  match h with
  | .arrow .. | .binary .. | .unary .. | .call .. | .index .. => cases he
  | .integer .. | .kwTrue _ | .kwFalse _ | .ident _ | .function .. | .array .. => cases he
  | .group ht h hclose =>
    obtain ⟨n, hn⟩ := h.exists_groupedIf he
    exact ⟨n + 1, .group ht hn hclose⟩
  | .cond ht _ hbody =>
    obtain ⟨us, close, rfl, hclose⟩ := hbody.exists_last
    rw [← List.append_assoc]
    exact ⟨0, .bare ht hclose⟩
  | .condElse ht _ _ _ hbody =>
    obtain ⟨us, close, rfl, hclose⟩ := hbody.exists_last
    simp only [← List.cons_append, ← List.append_assoc]
    exact ⟨0, .bare ht hclose⟩
  | .climb _ h => exact h.exists_groupedIf he

/-- Behind an `if` nothing needs to stand. -/
theorem GroupedIf.boundary (h : GroupedIf n ts) : Boundary ts [] := by
  cases h with
  | bare _ hclose => exact .brace (List.cons_append ..).symm hclose
  | group ht h hclose => exact .group (.group ht h hclose)

/-- A statement that needs no semicolon is an `if`. -/
theorem Statement.boundary_of_isClosed (h : Statement ts s) (hs : s.isClosed = true) :
    Boundary ts [] := by
  cases h with
  | var | ret => cases hs
  | expr he =>
    obtain ⟨n, hn⟩ := he.exists_groupedIf hs
    exact hn.boundary

/-- The statements of a list that follow each other have a boundary between them. -/
theorem Statements.bounded (h : Statements ts ss) : Bounded ts ss := by
  intro before s next after hss
  subst hss
  induction before generalizing ts with
  | nil =>
    cases h with
    | cons hs ht hss => exact ⟨[], _, [_], _, rfl, .nil, hs, .semicolon ht, hss⟩
    | closed hs hclosed _ hss =>
      exact ⟨[], _, [], _, rfl, .nil, hs, hs.boundary_of_isClosed hclosed, hss⟩
  | cons first before ih =>
    rw [List.cons_append] at h
    generalize hothers : before ++ s :: next :: after = others at h
    cases h with
    | last hs => simp at hothers
    | cons hs ht hss =>
      obtain ⟨pre, us, between, rest, rfl, hpre, hrest⟩ := ih (hothers ▸ hss)
      exact ⟨_ ++ _ :: pre, us, between, rest, by simp, .cons hs ht hpre, hrest⟩
    | closed hs hclosed hnext hss =>
      obtain ⟨pre, us, between, rest, heq, hpre, hrest⟩ := ih (hothers ▸ hss)
      rw [heq]
      obtain ⟨rfl, rfl⟩ | ⟨t, pre, rfl, _⟩ := hpre.exists_head
      · exact ⟨_, us, between, rest, rfl, .last hs, hrest⟩
      · obtain ⟨rfl, _⟩ := List.cons.inj heq
        exact ⟨_ ++ _ :: pre, us, between, rest, by simp, .closed hs hclosed hnext hpre, hrest⟩

end Boundary

end Grammar

open Grammar

/-- Between two statements that follow each other in a program, or in a block, stands a semicolon,
or the first of them ends in a brace, or it is an `if` in parentheses. -/
theorem parse_bounded (depth : Depth) :
    (∀ source ss, parse depth source = .ok ss → Bounded (tokenStream source).tokens ss) ∧
      ∀ endLine due tokens ss line rest hlt,
        Parser.block endLine depth due tokens = .ok ⟨.mk ss line, rest, hlt⟩ →
        ∃ brace ts close, tokens = brace :: (ts ++ close :: rest) ∧ brace.kind = .leftBrace ∧
          close.kind = .rightBrace ∧ Bounded ts ss := by
  refine ⟨fun source ss h => (Parser.statements_sound h).bounded, ?_⟩
  intro endLine due tokens ss line rest hlt h
  obtain ⟨us, rfl, hbraces⟩ := (Parser.sound tokens).block h
  cases hbraces with
  | mk hbrace hss hclose => exact ⟨_, _, _, by simp, hbrace, hclose, hss.bounded⟩

/-- The tokens of an `if` in parentheses and of a number behind it. -/
def groupedIfTokens : List Token :=
  [⟨.leftParen, "(", 1⟩, ⟨.kwIf, "if", 1⟩, ⟨.leftParen, "(", 1⟩, ⟨.kwTrue, "true", 1⟩,
    ⟨.rightParen, ")", 1⟩, ⟨.leftBrace, "\x7b", 1⟩, ⟨.integer, "1", 1⟩, ⟨.rightBrace, "\x7d", 1⟩,
    ⟨.rightParen, ")", 1⟩, ⟨.integer, "2", 1⟩]

/-- The statements that they are read as. -/
def groupedIf : List Stmt :=
  [.expr (.cond (.boolean true 1) (.mk [.expr (.integer "1" 1) 1] 1) none 1) 1,
    .expr (.integer "2" 1) 1]

/-- An `if` in parentheses and a number behind it are two statements of a program, and of a block,
though neither a semicolon nor a brace stands between them. -/
theorem parse_bounded_groupedIf :
    (tokenStream "(if (true) \x7b1\x7d) 2").tokens = groupedIfTokens ∧
      parse .unbounded "(if (true) \x7b1\x7d) 2" = .ok groupedIf ∧
      Bounded groupedIfTokens groupedIf ∧
      ∃ brace ts close,
        ⟨.leftBrace, "\x7b", 1⟩ :: (groupedIfTokens ++ [⟨.rightBrace, "\x7d", 1⟩]) =
            brace :: (ts ++ [close]) ∧
          Bounded ts groupedIf := by
  have htokens : (tokenStream "(if (true) \x7b1\x7d) 2").tokens = groupedIfTokens := by
    decide +kernel
  have hprogram : parse .unbounded "(if (true) \x7b1\x7d) 2" = .ok groupedIf := by
    rw [parse_eq_unrolled 100]
    with_unfolding_all rfl
  have hread : Parser.Readings.ofParser.block .functionBody .unbounded 1
      (⟨.leftBrace, "\x7b", 1⟩ :: (groupedIfTokens ++ [⟨.rightBrace, "\x7d", 1⟩])) =
        .ok (.mk groupedIf 1, []) := by
    rw [← Parser.Readings.iterate_unroll_ofParser .oversizedLiteral 100]
    rfl
  obtain ⟨_, hblock⟩ := Parser.Parsed.of_map_pair hread
  obtain ⟨brace, ts, close, hsplit, _, _, hbounded⟩ :=
    (parse_bounded .unbounded).2 _ _ _ _ _ _ _ hblock
  exact ⟨htokens, hprogram, htokens ▸ (parse_bounded .unbounded).1 _ _ hprogram, brace, ts, close,
    hsplit, hbounded⟩

end EtherLang.Surface
