import EtherLang.Proofs.Ast.Layout
import EtherLang.Proofs.Surface.Concatenation
import EtherLang.Proofs.Surface.Recursion

/-!
# Joined programs

A text is read in two passes: its syntax first, then what its arrows stand for. Two texts that are
joined by a line feed, the first of which is closed off by a semicolon, give the statements of the
one and of the other. If the first is rejected, the joined text is rejected for the same, but for
one case: the first text's fault is in an arrow and the second text has a fault in its syntax. Then
it is this one that is found, since the first pass goes through all of the text.
-/

namespace EtherLang

open Ast (Program)
open Surface.Parser (ClosedOff)

namespace Surface

/-- Lowering statements one list after the other. -/
theorem desugarStatements_append (depth : Depth) (ss ss' : List Stmt) :
    desugarStatements depth (ss ++ ss') =
      desugarStatements depth ss >>= fun ps => (desugarStatements depth ss').map (ps ++ ·) := by
  induction ss with
  | nil =>
    rw [List.nil_append, desugarStatements]
    cases desugarStatements depth ss' <;> rfl
  | cons s ss ih =>
    rw [List.cons_append, desugarStatements, desugarStatements, ih]
    cases s.desugar depth with
    | error e => rfl
    | ok p =>
      cases desugarStatements depth ss with
      | error e => rfl
      | ok ps => cases desugarStatements depth ss' <;> rfl

end Surface

section Passes

variable {depth : Depth} {source : String}

/-- A text with a fault in its syntax is no program for that fault. -/
theorem parse_of_surface {failure : ParseFailure}
    (h : Surface.parse depth source = .error failure) :
    parse depth source = .error failure := by
  rw [parse, h]
  rfl

/-- A text that is read as a tree is read as what the tree is lowered to. -/
theorem parse_of_tree {ss : List Surface.Stmt} (h : Surface.parse depth source = .ok ss) :
    parse depth source =
      ((Surface.desugarStatements depth ss).map Program.mk).mapError ParseFailure.rejected := by
  rw [parse, h]
  rfl

/-- A program that is read is the lowered form of the tree that its text is read as. -/
theorem exists_tree_of_parse {p : Program} (h : parse depth source = .ok p) :
    ∃ ss, Surface.parse depth source = .ok ss ∧
      Surface.desugarStatements depth ss = .ok p.statements := by
  obtain ⟨ss, hss, _⟩ := Surface.Parser.bind_eq_ok h
  refine ⟨ss, hss, ?_⟩
  rw [parse_of_tree hss] at h
  cases hps : Surface.desugarStatements depth ss with
  | error e =>
    rw [hps] at h
    cases h
  | ok ps =>
    rw [hps] at h
    cases h
    rfl

/-- A text is rejected for its syntax, or for what it is lowered to. -/
theorem parse_eq_rejected {e : ParseError} (h : parse depth source = .error (.rejected e)) :
    Surface.parse depth source = .error (.rejected e) ∨
      ∃ ss, Surface.parse depth source = .ok ss ∧
        Surface.desugarStatements depth ss = .error e := by
  cases hss : Surface.parse depth source with
  | error failure =>
    rw [parse_of_surface hss] at h
    cases h
    exact .inl rfl
  | ok ss =>
    refine .inr ⟨ss, rfl, ?_⟩
    rw [parse_of_tree hss] at h
    cases hps : Surface.desugarStatements depth ss with
    | error e =>
      rw [hps] at h
      cases h
      rfl
    | ok ps =>
      rw [hps] at h
      cases h

end Passes

section Join

variable {depth : Depth} {a b : String}

/-- Two programs, the first of which is closed off, are joined to a program: the statements of the
first and those of the second, on later lines. -/
theorem parse_join_of_ok {p q : Program} (ha : parse depth a = .ok p)
    (hclosed : ClosedOff (tokenStream a).tokens) (hb : parse depth b = .ok q) :
    ∃ q' : Program, parse depth (a ++ "\n" ++ b) = .ok ⟨p.statements ++ q'.statements⟩ ∧
      q'.eraseLines = q.eraseLines := by
  obtain ⟨ss, hss, hps⟩ := exists_tree_of_parse ha
  obtain ⟨ss', hss', hqs⟩ := exists_tree_of_parse hb
  obtain ⟨r, hjoin, halike⟩ := Surface.parse_join hss hclosed b
  rw [hss'] at halike
  cases r with
  | error failure => exact halike.elim
  | ok later =>
    have hlater := Surface.desugarStatements_alike later depth
    have hss' := Surface.desugarStatements_alike ss' depth
    rw [← halike] at hss'
    have hlowered := hlater.of_common hss'
    rw [hqs] at hlowered
    cases hqs' : Surface.desugarStatements depth later with
    | error e =>
      rw [hqs'] at hlowered
      exact hlowered.elim
    | ok qs =>
      rw [hqs'] at hlowered
      refine ⟨⟨qs⟩, ?_, congrArg Program.mk hlowered⟩
      rw [parse_of_tree hjoin, Surface.desugarStatements_append, hps, hqs']
      rfl

/-- A text that is closed off and rejected, for something else than its end, is rejected for the
same with another text behind it: in any case if the fault is in its syntax, and else if the other
text has none in its own, which would be found first. -/
theorem parse_join_rejected (depth : Depth) (a b : String) (e : ParseError)
    (hclosed : ClosedOff (tokenStream a).tokens) (ha : parse depth a = .error (.rejected e))
    (hcause : ¬e.cause.AtEnd) :
    (Surface.parse depth a = .error (.rejected e) ∨ (∃ ss, Surface.parse depth b = .ok ss) →
        parse depth (a ++ "\n" ++ b) = .error (.rejected e)) ∧
      ∀ ss failure, Surface.parse depth a = .ok ss → Surface.parse depth b = .error failure →
        ∃ failure', parse depth (a ++ "\n" ++ b) = .error failure' ∧
          failure'.wording = failure.wording := by
  constructor
  · obtain hsurface | ⟨ss, hss, hps⟩ := parse_eq_rejected ha
    · intro _
      exact parse_of_surface (Surface.parse_join_of_error hsurface hclosed hcause b)
    · rintro (hsurface | ⟨ss', hss'⟩)
      · rw [hss] at hsurface
        cases hsurface
      · obtain ⟨r, hjoin, halike⟩ := Surface.parse_join hss hclosed b
        rw [hss'] at halike
        cases r with
        | error failure => exact halike.elim
        | ok later =>
          rw [parse_of_tree hjoin, Surface.desugarStatements_append, hps]
          rfl
  · intro ss failure hss hb
    obtain ⟨r, hjoin, halike⟩ := Surface.parse_join hss hclosed b
    rw [hb] at halike
    cases r with
    | ok later => exact halike.elim
    | error failure' =>
      exact ⟨failure', parse_of_surface hjoin, halike⟩

end Join

/-- A number behind an arrow is a fault. -/
theorem parse_badArrow :
    parse .unbounded "1 -> 2;" = .error (.rejected ⟨.arrowTarget "2", 1⟩) := by
  have htree : Surface.parse .unbounded "1 -> 2;" =
      .ok [.expr (.arrow (.integer "1" 1) (.integer "2" 1) 1) 1] := by
    rw [Surface.parse_eq_unrolled 100]
    with_unfolding_all rfl
  rw [parse, htree]
  rfl

/-- The number behind the arrow stays the fault where a whole statement follows. -/
theorem parse_join_rejected_badArrow :
    ClosedOff (tokenStream "1 -> 2;").tokens ∧
      parse .unbounded "1 -> 2;" = .error (.rejected ⟨.arrowTarget "2", 1⟩) ∧
      ¬(ParseError.Cause.arrowTarget "2").AtEnd ∧
      Surface.parse .unbounded "3" = .ok [.expr (.integer "3" 1) 1] ∧
      parse .unbounded ("1 -> 2;" ++ "\n" ++ "3") = .error (.rejected ⟨.arrowTarget "2", 1⟩) := by
  have hclosed : ClosedOff (tokenStream "1 -> 2;").tokens := by decide +kernel
  have hb : Surface.parse .unbounded "3" = .ok [.expr (.integer "3" 1) 1] := by
    rw [Surface.parse_eq_unrolled 100]
    with_unfolding_all rfl
  exact ⟨hclosed, parse_badArrow, id, hb,
    (parse_join_rejected _ _ _ _ hclosed parse_badArrow id).1 (.inr ⟨_, hb⟩)⟩

/-- It is not always the first fault of a text that is found: a number behind an arrow goes
unnoticed where the syntax breaks down later on. -/
theorem not_first_fault_found :
    ¬∀ (depth : Depth) (a b : String) (e : ParseError),
      (∃ t ∈ (tokenStream a).tokens.getLast?, t.kind = .semicolon) →
      parse depth a = .error (.rejected e) → ¬e.cause.AtEnd →
      ∃ e', parse depth (a ++ "\n" ++ b) = .error (.rejected e') ∧ e'.message = e.message ∧
        e'.line = e.line := by
  intro hall
  have hjoined : parse .unbounded ("1 -> 2;" ++ "\n" ++ ")") =
      .error (.rejected ⟨.unexpected ⟨.rightParen, ")", 2⟩, 2⟩) := by
    rw [parse, Surface.parse_eq_unrolled 100]
    with_unfolding_all rfl
  have hlast : (tokenStream "1 -> 2;").tokens.getLast? = some ⟨.semicolon, ";", 1⟩ := by
    decide +kernel
  obtain ⟨e', he', _, hline⟩ := hall .unbounded "1 -> 2;" ")" _ ⟨_, hlast, rfl⟩ parse_badArrow id
  rw [hjoined] at he'
  cases he'
  cases hline

end EtherLang
