import Mathlib.Algebra.Group.Nat.Defs
import EtherLang.Proofs.Ast.WellFormed
import EtherLang.Proofs.Eval.Discipline
import EtherLang.Proofs.Surface.Recursion
import EtherLang.Session

/-!
# What running an accepted text keeps up

The trees that reading returns obey every discipline that admits the literals of the language and
the lengths of their array literals, and so do the stores that come of running them, one after the
other. Two disciplines make this concrete. The one that admits everything shows that such a run ends
in a value or in an error of the program, and never in what only a malformed tree can cause. The one
of the 64-bit range shows that every integer of the run stays in that range; since the length of an
array is not wrapped, this takes a bound on the lengths of the array literals.
-/

namespace EtherLang.Ast

mutual

/-- How many elements the array literals of an expression have, those in functions included. -/
def Expr.arrayLengths : Expr → List Nat
  | .ident .. | .int .. | .bool .. | .foreign => []
  | .unary _ operand _ => operand.arrayLengths
  | .binary _ left right _ => left.arrayLengths ++ right.arrayLengths
  | .function _ body _ => body.arrayLengths
  | .call callee args _ => callee.arrayLengths ++ arrayLengthsList args
  | .array elements _ => elements.length :: arrayLengthsList elements
  | .index array index _ => array.arrayLengths ++ index.arrayLengths
  | .cond condition consequence none _ => condition.arrayLengths ++ consequence.arrayLengths
  | .cond condition consequence (some alternative) _ =>
    condition.arrayLengths ++ consequence.arrayLengths ++ alternative.arrayLengths
  | .misplaced statement => statement.arrayLengths

/-- How many elements the array literals of expressions have. -/
def arrayLengthsList : List Expr → List Nat
  | [] => []
  | first :: others => first.arrayLengths ++ arrayLengthsList others

/-- How many elements the array literals of a statement have. -/
def Stmt.arrayLengths : Stmt → List Nat
  | .var _ value _ | .ret value _ | .expr value _ => value.arrayLengths
  | .block body => body.arrayLengths
  | .misplaced expression => expression.arrayLengths
  | .program statements => arrayLengthsStatements statements

/-- How many elements the array literals of a block have. -/
def Block.arrayLengths : Block → List Nat
  | .mk statements _ => arrayLengthsStatements statements

/-- How many elements the array literals of statements have. -/
def arrayLengthsStatements : List Stmt → List Nat
  | [] => []
  | first :: others => first.arrayLengths ++ arrayLengthsStatements others

end

/-- How many elements the array literals of a program have. -/
def Program.arrayLengths (p : Program) : List Nat :=
  arrayLengthsStatements p.statements

/-- The discipline admits the numbers that can be written as literals. -/
def AdmitsLiterals (d : Discipline) : Prop :=
  ∀ n, 0 ≤ n → n ≤ Integer.maxValue → d.integer n

variable {d : Discipline}

mutual

/-- A well-formed expression obeys a discipline that admits its array literals. -/
theorem Expr.obeys_of_wellFormed (hd : AdmitsLiterals d) {e : Expr} (he : e.wellFormed = true)
    (hlengths : ∀ n ∈ e.arrayLengths, d.length n) : e.Obeys d := by
  match e with
  | .ident _ _ | .bool _ _ => trivial
  | .int value _ =>
    simp only [Expr.wellFormed, Bool.and_eq_true, decide_eq_true_eq] at he
    exact hd value he.1 he.2
  | .unary (.known _) operand _ =>
    rw [Expr.wellFormed] at he
    exact operand.obeys_of_wellFormed hd he hlengths
  | .binary (.known _) left right _ =>
    rw [Expr.wellFormed, Bool.and_eq_true] at he
    rw [Expr.arrayLengths, List.forall_mem_append] at hlengths
    exact ⟨left.obeys_of_wellFormed hd he.1 hlengths.1,
      right.obeys_of_wellFormed hd he.2 hlengths.2⟩
  | .function _ body _ =>
    rw [Expr.wellFormed, Bool.and_eq_true] at he
    exact body.obeys_of_wellFormed hd he.2 hlengths
  | .call callee args _ =>
    rw [Expr.wellFormed, Bool.and_eq_true] at he
    rw [Expr.arrayLengths, List.forall_mem_append] at hlengths
    exact ⟨callee.obeys_of_wellFormed hd he.1 hlengths.1,
      obeyList_of_wellFormed hd he.2 hlengths.2⟩
  | .array elements _ =>
    rw [Expr.wellFormed] at he
    rw [Expr.arrayLengths, List.forall_mem_cons] at hlengths
    exact ⟨hlengths.1, obeyList_of_wellFormed hd he hlengths.2⟩
  | .index array index _ =>
    rw [Expr.wellFormed, Bool.and_eq_true] at he
    rw [Expr.arrayLengths, List.forall_mem_append] at hlengths
    exact ⟨array.obeys_of_wellFormed hd he.1 hlengths.1,
      index.obeys_of_wellFormed hd he.2 hlengths.2⟩
  | .cond condition consequence none _ =>
    rw [Expr.wellFormed, Bool.and_eq_true] at he
    rw [Expr.arrayLengths, List.forall_mem_append] at hlengths
    exact ⟨condition.obeys_of_wellFormed hd he.1 hlengths.1,
      consequence.obeys_of_wellFormed hd he.2 hlengths.2⟩
  | .cond condition consequence (some alternative) _ =>
    rw [Expr.wellFormed, Bool.and_eq_true, Bool.and_eq_true] at he
    rw [Expr.arrayLengths, List.forall_mem_append, List.forall_mem_append] at hlengths
    exact ⟨condition.obeys_of_wellFormed hd he.1.1 hlengths.1.1,
      consequence.obeys_of_wellFormed hd he.1.2 hlengths.1.2,
      alternative.obeys_of_wellFormed hd he.2 hlengths.2⟩
termination_by structural e

/-- Well-formed expressions obey a discipline that admits their array literals. -/
theorem obeyList_of_wellFormed (hd : AdmitsLiterals d) {es : List Expr}
    (hes : wellFormedList es = true) (hlengths : ∀ n ∈ arrayLengthsList es, d.length n) :
    ObeyList d es := by
  match es with
  | [] => trivial
  | first :: others =>
    rw [wellFormedList, Bool.and_eq_true] at hes
    rw [arrayLengthsList, List.forall_mem_append] at hlengths
    exact ⟨first.obeys_of_wellFormed hd hes.1 hlengths.1,
      obeyList_of_wellFormed hd hes.2 hlengths.2⟩
termination_by structural es

/-- A well-formed statement obeys a discipline that admits its array literals. -/
theorem Stmt.obeys_of_wellFormed (hd : AdmitsLiterals d) {s : Stmt} (hs : s.wellFormed = true)
    (hlengths : ∀ n ∈ s.arrayLengths, d.length n) : s.Obeys d := by
  match s with
  | .var _ value _ =>
    rw [Stmt.wellFormed, Bool.and_eq_true] at hs
    exact value.obeys_of_wellFormed hd hs.2 hlengths
  | .ret value _ | .expr value _ =>
    rw [Stmt.wellFormed] at hs
    exact value.obeys_of_wellFormed hd hs hlengths
termination_by structural s

/-- A well-formed block obeys a discipline that admits its array literals. -/
theorem Block.obeys_of_wellFormed (hd : AdmitsLiterals d) {b : Block} (hb : b.wellFormed = true)
    (hlengths : ∀ n ∈ b.arrayLengths, d.length n) : b.Obeys d := by
  match b with
  | .mk statements _ =>
    rw [Block.wellFormed] at hb
    exact obeyStatements_of_wellFormed hd hb hlengths
termination_by structural b

/-- Well-formed statements obey a discipline that admits their array literals. -/
theorem obeyStatements_of_wellFormed (hd : AdmitsLiterals d) {ss : List Stmt}
    (hss : wellFormedStatements ss = true)
    (hlengths : ∀ n ∈ arrayLengthsStatements ss, d.length n) : ObeyStatements d ss := by
  match ss with
  | [] => trivial
  | first :: others =>
    rw [wellFormedStatements, Bool.and_eq_true] at hss
    rw [arrayLengthsStatements, List.forall_mem_append] at hlengths
    exact ⟨first.obeys_of_wellFormed hd hss.1 hlengths.1,
      obeyStatements_of_wellFormed hd hss.2 hlengths.2⟩
termination_by structural ss

end

/-- A program that reading returns obeys a discipline that admits its array literals. -/
theorem Program.obeys_of_parse (hd : AdmitsLiterals d) {depth : Depth} {source : String}
    {p : Program} (hp : parse depth source = .ok p) (hlengths : ∀ n ∈ p.arrayLengths, d.length n) :
    ObeyStatements d p.statements :=
  obeyStatements_of_wellFormed hd (wellFormed_of_parse hp) hlengths

end EtherLang.Ast

namespace EtherLang

/-- Natural numbers below `2 ^ 63` are in the 64-bit range. -/
theorem Integer.mem_of_lt {n : Nat} (h : n < 2 ^ 63) : minValue ≤ n ∧ (n : Int) ≤ maxValue := by
  simp only [minValue, maxValue]
  omega

namespace Discipline

/-- Everything may occur, so that a tree obeys if it is one of the language. -/
def any : Discipline where
  integer _ := True
  length _ := True
  builtin _ := True
  integer_wrap _ := trivial
  integer_length _ _ := trivial
  integer_argCount _ _ _ := trivial

/-- Integers are in the 64-bit range, arrays have fewer than `2 ^ 63` elements and builtins are
those of the language. -/
def int64 : Discipline where
  integer n := Integer.minValue ≤ n ∧ n ≤ Integer.maxValue
  length n := n < 2 ^ 63
  builtin b := ∀ name, b ≠ .argCount name
  integer_wrap := Integer.wrap_mem
  integer_length _ := Integer.mem_of_lt
  integer_argCount name h := absurd rfl (h name)

/-- Whatever can be written as a literal may occur. -/
theorem admitsLiterals_any : Ast.AdmitsLiterals any :=
  fun _ _ _ => trivial

/-- The literals of the language are in the 64-bit range. -/
theorem admitsLiterals_int64 : Ast.AdmitsLiterals int64 := by
  intro n lower upper
  have hmin : Integer.minValue ≤ 0 := by decide
  exact ⟨Int.le_trans hmin lower, upper⟩

end Discipline

/-- The builtins of the language are not those of a host. -/
theorem BuiltinTable.standard_obeys_int64 : BuiltinTable.standard.Obeys .int64 := by
  intro name b hb other hother
  obtain ⟨before, after, hentries, -⟩ := List.lookup_eq_some_iff.mp hb
  have hmem : (name, b) ∈ BuiltinTable.standard.entries := hentries ▸ by simp
  subst hother
  simp [BuiltinTable.standard] at hmem

/-- The stores that come of running accepted texts: each of them is run in some frame of the store
that those before it have left, with any builtins and any depth. -/
inductive Store.FromTexts : Store → Prop
  | empty : FromTexts .empty
  | newFrame {s : Store} : FromTexts s → FromTexts s.newFrame.2
  | enclose {s : Store} (parent : FrameId) : FromTexts s → FromTexts (s.enclose parent).2
  | run {m : Machine} {reading : Depth} {source : String} {p : Ast.Program} (table : BuiltinTable)
      (depth : Nat) (frame : FrameId) :
    FromTexts m.store → parse reading source = .ok p →
    FromTexts (Eval.runIn m (Eval.node table depth frame (.program p))).2.store

/-- All closures of a store that comes of accepted texts have bodies of the language. -/
theorem Store.FromTexts.obeys {s : Store} (h : s.FromTexts) : s.Obeys .any := by
  induction h with
  | empty => exact Store.obeys_empty
  | newFrame _ ih => exact ih.push none
  | enclose parent _ ih => exact ih.push (some parent)
  | @run m reading source p table depth frame _ hp ih =>
    have hobeys := Ast.Program.obeys_of_parse Discipline.admitsLiterals_any hp fun _ _ => trivial
    exact (Eval.keeps_program (fun _ _ _ => trivial) depth frame hobeys m ih).1

namespace Session

/-- The sessions that come of evaluating texts, whether they are accepted or not, and of forgetting
all variables. -/
inductive Reached : Session → Prop
  | start (builtins : BuiltinTable) (requestedLimit : Option Nat) :
    Reached (start builtins requestedLimit)
  | evaluate {s : Session} (source : String) : Reached s → Reached (s.evaluate source).2
  | reset {s : Session} : Reached s → Reached s.reset

/-- Evaluating a text leaves the store as it is, or runs the program that is read from the text. -/
theorem evaluate_store (s : Session) (source : String) :
    (s.evaluate source).2.store = s.store ∨
      ∃ reading p depth, parse reading source = .ok p ∧
        (s.evaluate source).2.store = (Eval.runIn ⟨s.store, "", []⟩
          (Eval.node s.builtins depth s.global (.program p))).2.store := by
  have heq := s.evaluate_eq source
  split at heq
  · exact .inl (congrArg (·.2.2.store) heq)
  · split at heq
    · exact .inl (congrArg (·.2.2.store) heq)
    · next p hp => exact .inr ⟨_, p, _, hp, congrArg (·.2.2.store) heq⟩

/-- The store of a session comes of accepted texts. -/
theorem Reached.fromTexts {s : Session} (h : s.Reached) : s.store.FromTexts := by
  induction h with
  | start => exact .newFrame .empty
  | reset _ ih => exact .newFrame ih
  | @evaluate s source _ ih =>
    obtain hstore | ⟨reading, p, depth, hp, hstore⟩ := s.evaluate_store source
    · exact hstore ▸ ih
    · rw [hstore]
      exact .run (m := ⟨s.store, "", []⟩) _ _ _ ih hp

end Session

/-- Of two integers the quotient is taken only if there is one. -/
theorem BinaryOp.onIntegers_div (a b : Int) :
    BinaryOp.div.onIntegers a b =
      if b = 0 then .error (.divisionByZero a) else .ok (.int (Integer.wrap (a.tdiv b))) := by
  rw [BinaryOp.onIntegers, Integer.quotient?]
  by_cases hb : b = 0
  · rw [if_pos hb, if_pos hb]
  · rw [if_neg hb, if_neg hb]

/-- An element is taken only if there is one at the position. -/
theorem Value.element_array (elements : List Value) (i : Int) :
    element (.array elements) (.int i) =
      if h : 0 ≤ i ∧ i.toNat < elements.length then .ok (elements.get ⟨i.toNat, h.2⟩)
      else .error (.indexOutOfRange i elements.length) := by
  rw [element]
  by_cases hsign : i < 0
  · rw [if_pos hsign, dif_neg (by omega)]
  · rw [if_neg hsign]
    by_cases hlength : i.toNat < elements.length
    · rw [List.getElem?_eq_getElem hlength, dif_pos ⟨by omega, hlength⟩]
      rfl
    · rw [List.getElem?_eq_none (by omega), dif_neg (by omega)]

namespace Eval

section Ends

variable {α : Type} {property property' : α → Prop} {r : Except Fault α}

/-- A result that is a value has the property. -/
theorem EndsProperly.of_eq_ok (h : EndsProperly property r) {a : α} (hr : r = .ok a) :
    property a := by
  subst hr
  exact h

/-- The property may be weakened. -/
theorem EndsProperly.mono (h : EndsProperly property r) (himp : ∀ a, property a → property' a) :
    EndsProperly property' r := by
  cases r with
  | ok a => exact himp a h
  | error fault => exact h

end Ends

/-- A whole program does not end in running out of depth, which is reported as its error. -/
theorem node_ne_exhausted (table : BuiltinTable) (depth : Nat) (frame : FrameId) (n : Ast.Node)
    (m : Machine) : (runIn m (node table depth frame n)).1 ≠ .error .exhausted := by
  rw [node.eq_def, runIn_reportingExhaustion]
  generalize (runIn m _).1 = r
  match r with
  | .ok a => nofun
  | .error (.error e) => nofun
  | .error (.illFormed e) => nofun
  | .error .exhausted => nofun

/-- An accepted text that is run in a store of accepted texts ends in a value or in an error of the
program, and never for a cause that an unknown operator has. All that it begins on its way are nodes
of the language, which end so too or run out of depth. Division and indexing are guarded. -/
theorem accepted_endsProperly {m : Machine} (hm : m.store.FromTexts) {reading : Depth}
    {source : String} {p : Ast.Program} (hp : parse reading source = .ok p) (table : BuiltinTable)
    (depth : Nat) (frame : FrameId) :
    ((∃ v, (runIn m (node table depth frame (.program p))).1 = .ok v) ∨
      ∃ e, (runIn m (node table depth frame (.program p))).1 = .error (.error e) ∧
        ¬e.cause.IsFallThrough) ∧
    (∀ depth' t m', InCourse table depth frame p m depth' t m' →
      t.Obeys .any ∧ EndsProperly (fun _ => True) (runIn m' (t.run table depth')).1) ∧
    (∀ a b, BinaryOp.div.onIntegers a b =
      if b = 0 then .error (.divisionByZero a) else .ok (.int (Integer.wrap (a.tdiv b)))) ∧
    ∀ elements i, Value.element (.array elements) (.int i) =
      if h : 0 ≤ i ∧ i.toNat < elements.length then .ok (elements.get ⟨i.toNat, h.2⟩)
      else .error (.indexOutOfRange i elements.length) := by
  have htable : table.Obeys .any := fun _ _ _ => trivial
  have hobeys := Ast.Program.obeys_of_parse Discipline.admitsLiterals_any hp fun _ _ => trivial
  refine ⟨?_, ?_, BinaryOp.onIntegers_div, Value.element_array⟩
  · have hend := (keeps_program htable depth frame hobeys m hm.obeys).2
    have hreported := node_ne_exhausted table depth frame (.program p) m
    match hrun : (runIn m (node table depth frame (.program p))).1 with
    | .ok v => exact .inl ⟨v, rfl⟩
    | .error (.error e) =>
      rw [hrun] at hend
      exact .inr ⟨e, rfl, hend⟩
    | .error (.illFormed e) =>
      rw [hrun] at hend
      exact hend.elim
    | .error .exhausted => exact absurd hrun hreported
  · intro depth' t m' hcourse
    obtain ⟨hm', ht⟩ := hcourse.obeys htable hm.obeys hobeys
    have hend := ((keepsAt htable depth').task ht m' hm').2
    exact ⟨ht, hend.mono fun _ _ => trivial⟩

/-- A session in which a function has been stored that divides by its argument. -/
def afterStoring : Session :=
  ((Session.start .standard none).evaluate "var f = |x| \x7b [x][0] / x \x7d").2

/-- The function is bound in the global frame. -/
theorem store_afterStoring :
    afterStoring.store = ⟨#[⟨none, [("f", .closure [⟨"x", 1⟩]
      (.mk [.expr (.binary (.known .div) (.index (.array [.ident "x" 1] 1) (.int 0 1) 1)
        (.ident "x" 1) 1) 1] 1) 0)]⟩]⟩ := by
  let s := Session.start .standard none
  have htokens : tokenStream "var f = |x| \x7b [x][0] / x \x7d" =
      ⟨[⟨.kwVar, "var", 1⟩, ⟨.ident, "f", 1⟩, ⟨.assign, "=", 1⟩, ⟨.bar, "|", 1⟩, ⟨.ident, "x", 1⟩,
        ⟨.bar, "|", 1⟩, ⟨.leftBrace, "\x7b", 1⟩, ⟨.leftBracket, "[", 1⟩, ⟨.ident, "x", 1⟩,
        ⟨.rightBracket, "]", 1⟩, ⟨.leftBracket, "[", 1⟩, ⟨.integer, "0", 1⟩,
        ⟨.rightBracket, "]", 1⟩, ⟨.slash, "/", 1⟩, ⟨.ident, "x", 1⟩,
        ⟨.rightBrace, "\x7d", 1⟩], 1⟩ := by decide +kernel
  have htree : Surface.parse (.atMost 5000) "var f = |x| \x7b [x][0] / x \x7d" =
      .ok [.var ⟨"f", 1⟩ (.function [⟨"x", 1⟩] (.mk [.expr (.binary .div
        (.index (.array [.ident "x" 1] 1) (.integer "0" 1) 1) (.ident "x" 1) 1) 1] 1) 1) 1] := by
    rw [Surface.parse_eq_unrolled 100, htokens]
    rfl
  have hlevels : levelsOf s.nextLimit.1 = 5000 := by decide
  have heq := s.evaluate_eq "var f = |x| \x7b [x][0] / x \x7d"
  rw [hlevels, parse, htree] at heq
  exact congrArg (·.2.2.store) heq

/-- The stored function is called for each element of an array, and divides by zero at the second
one. -/
theorem accepted_endsProperly_storedFunction :
    let m : Machine := ⟨afterStoring.store, "", []⟩
    let p : Ast.Program :=
      ⟨[.expr (.call (.ident "map" 1) [.array [.int 4 1, .int 0 1] 1, .ident "f" 1] 1) 1]⟩
    m.store.FromTexts ∧ parse .unbounded "map([4, 0], f)" = .ok p ∧
      (runIn m (node .standard 9 0 (.program p))).1 =
        .error (.error ⟨.divisionByZero 0, some 1⟩) ∧
      ∀ depth t m', InCourse .standard 9 0 p m depth t m' →
        t.Obeys .any ∧ EndsProperly (fun _ => True) (runIn m' (t.run .standard depth)).1 := by
  intro m p
  have hm : m.store.FromTexts := (Session.Reached.evaluate _ (.start .standard none)).fromTexts
  have htree : Surface.parse .unbounded "map([4, 0], f)" = .ok [.expr (.call (.ident "map" 1)
      [.array [.integer "4" 1, .integer "0" 1] 1, .ident "f" 1] 1) 1] := by
    rw [Surface.parse_eq_unrolled 100]
    with_unfolding_all rfl
  have hp : parse .unbounded "map([4, 0], f)" = .ok p := by
    rw [parse, htree]
    rfl
  have hrun : (runIn m (node .standard 9 0 (.program p))).1 =
      .error (.error ⟨.divisionByZero 0, some 1⟩) := by
    have hstored : m = _ := congrArg (Machine.mk · "" []) store_afterStoring
    rw [hstored]
    with_unfolding_all rfl
  exact ⟨hm, hp, hrun, (accepted_endsProperly hm hp .standard 9 0).2.1⟩

/-- When an accepted text whose array literals are short enough is run in a store whose integers are
in the 64-bit range, at every point of the run all integers are, those in the frames, in arrays and
in the bodies of closures, and those that are passed, returned or left at the end. -/
theorem accepted_int64 {table : BuiltinTable} (htable : table.Obeys .int64) {m : Machine}
    (hm : m.store.Obeys .int64) {reading : Depth} {source : String} {p : Ast.Program}
    (hp : parse reading source = .ok p) (hlengths : ∀ n ∈ p.arrayLengths, n < 2 ^ 63) (depth : Nat)
    (frame : FrameId) :
    (∀ depth' t m', InCourse table depth frame p m depth' t m' →
      m'.store.Obeys .int64 ∧ t.Obeys .int64 ∧
        (runIn m' (t.run table depth')).2.store.Obeys .int64 ∧
        ∀ v, (runIn m' (t.run table depth')).1 = .ok v → v.Obeys .int64) ∧
    (runIn m (node table depth frame (.program p))).2.store.Obeys .int64 ∧
    ∀ v, (runIn m (node table depth frame (.program p))).1 = .ok v → v.Obeys .int64 := by
  have hobeys := Ast.Program.obeys_of_parse Discipline.admitsLiterals_int64 hp hlengths
  refine ⟨?_, ?_⟩
  · intro depth' t m' hcourse
    obtain ⟨hm', ht⟩ := hcourse.obeys htable hm hobeys
    obtain ⟨hstore, hend⟩ := (keepsAt htable depth').task ht m' hm'
    exact ⟨hm', ht, hstore, fun v hv => hend.of_eq_ok hv⟩
  · obtain ⟨hstore, hend⟩ := keeps_program htable depth frame hobeys m hm
    exact ⟨hstore, fun v hv => hend.of_eq_ok hv⟩

/-- A state in which the least integer is bound. -/
def leastBound : Machine :=
  ⟨Store.empty.newFrame.2.set 0 "a" (.int Integer.minValue), "", []⟩

/-- The least integer is divided by minus one and lowered by one, and `len` is called with an array
that holds it. -/
theorem accepted_int64_leastInteger :
    let quotient : Ast.Expr :=
      .binary (.known .div) (.ident "a" 1) (.unary (.known .negate) (.int 1 1) 1) 1
    let difference : Ast.Expr := .binary (.known .sub) (.ident "a" 1) (.int 1 1) 1
    let call : Ast.Expr := .call (.ident "len" 1) [.array [.ident "a" 1] 1] 1
    let p : Ast.Program := ⟨[.expr (.array [quotient, difference, call] 1) 1]⟩
    let t : Task := .apply (some 1) (.builtin .len) [.array [.int Integer.minValue]]
    let v : Value := .array [.int Integer.minValue, .int Integer.maxValue, .int 1]
    leastBound.store.Obeys .int64 ∧ parse .unbounded "[a / -1, a - 1, len([a])]" = .ok p ∧
      (∀ n ∈ p.arrayLengths, n < 2 ^ 63) ∧
      InCourse .standard 9 0 p leastBound 6 t leastBound ∧ t.Obeys .int64 ∧
      (runIn leastBound (node .standard 9 0 (.program p))).1 = .ok v ∧ v.Obeys .int64 := by
  intro quotient difference call p t v
  have hm : leastBound.store.Obeys .int64 := by
    have hnew : Store.empty.newFrame.2.Obeys .int64 := Store.obeys_empty.push none
    exact hnew.set 0 "a" (Integer.wrap_mem Integer.minValue)
  have htree : Surface.parse .unbounded "[a / -1, a - 1, len([a])]" = .ok [.expr (.array
      [.binary .div (.ident "a" 1) (.unary .negate (.integer "1" 1) 1) 1,
        .binary .sub (.ident "a" 1) (.integer "1" 1) 1,
        .call (.ident "len" 1) [.array [.ident "a" 1] 1] 1] 1) 1] := by
    rw [Surface.parse_eq_unrolled 100]
    with_unfolding_all rfl
  have hp : parse .unbounded "[a / -1, a - 1, len([a])]" = .ok p := by
    rw [parse, htree]
    rfl
  have hlengths : ∀ n ∈ p.arrayLengths, n < 2 ^ 63 := by decide
  have hrun : (runIn leastBound (node .standard 9 0 (.program p))).1 = .ok v := by
    with_unfolding_all rfl
  -- The only statement begins the array, and its third element begins the call.
  have hcallee : runIn leastBound (expr .standard 6 0 (.ident "len" 1)) =
      (.ok (.builtin .len), leastBound) := by with_unfolding_all rfl
  have hargs : runIn leastBound ([.array [.ident "a" 1] 1].mapM (expr .standard 6 0)) =
      (.ok [.array [.int Integer.minValue]], leastBound) := by
    with_unfolding_all rfl
  have hbefore : runIn leastBound ([quotient, difference].mapM (expr .standard 7 0)) =
      (.ok [.int Integer.minValue, .int Integer.maxValue], leastBound) := by
    with_unfolding_all rfl
  have hplain : ∀ condition consequence alternative line,
      Ast.Expr.array [quotient, difference, call] 1 ≠
        .cond condition consequence alternative line := by
    intro _ _ _ _ h
    cases h
  have hcourse : InCourse .standard 9 0 p leastBound 6 t leastBound :=
    ⟨_, leastBound, ⟨[], [], .null, rfl, rfl⟩, .through (.standing _ _ _ hplain) <|
      .through (.element 1 ⟨[quotient, difference], [], _, rfl, hbefore⟩) <|
      .through (.call 1 hcallee hargs) (.itself ..)⟩
  have hall := accepted_int64 BuiltinTable.standard_obeys_int64 hm hp hlengths 9 0
  exact ⟨hm, hp, hlengths, hcourse, (hall.1 6 t leastBound hcourse).2.1, hrun, hall.2.2 v hrun⟩

end Eval

end EtherLang
