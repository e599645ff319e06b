import Mathlib.Logic.Basic
import Mathlib.Tactic.ByContra
import EtherLang.Proofs.Ast.Lines
import EtherLang.Proofs.Eval.Failing
import EtherLang.Proofs.Eval.Provenance
import EtherLang.Proofs.Surface.Recursion

/-!
# Where the errors of a running program are reported

While a program runs, tasks that have begun and not ended form a stack. An error is raised by the
innermost of them and goes outward through all of them; the first one that has a line places it. An
expression or a statement has its own line, and the application of a function has the line of the
call that begins it, or none if a builtin begins it. So an error is reported for the innermost node
of the stack, and an error of applying a function is reported for a call.
-/

namespace EtherLang

/-- The node whose evaluation is the task; applying a function is a step in the evaluation of a
call. -/
def Task.node? : Task → Option Ast.Node
  | .expr _ e => some (.expr e)
  | .stmt _ s => some (.stmt s)
  | .apply .. => none

/-- The node is a call. -/
def Ast.Node.IsCall : Ast.Node → Prop
  | .expr (.call ..) => True
  | _ => False

namespace Eval

variable (table : BuiltinTable)

/-- In the course of the first task, begun in the first state, the second one is begun in the second
state; the stack holds the tasks that have then begun and not ended, the innermost one first. -/
inductive Stacked : Nat → Task → Machine → List Task → Nat → Task → Machine → Prop
  | itself (depth : Nat) (t : Task) (m : Machine) : Stacked depth t m [t] depth t m
  | through {depth depth' : Nat} {t t₁ t' : Task} {m m₁ m' : Machine} {stack : List Task} :
    Begins table depth t m t₁ m₁ → Stacked depth t₁ m₁ stack depth' t' m' →
    Stacked (depth + 1) t m (stack ++ [t]) depth' t' m'

/-- The task raises an error for the cause by itself: it ends in the error although everything that
it has begun has ended with a value. -/
def Raises (depth : Nat) (t : Task) (m : Machine) (cause : EvalError.Cause) : Prop :=
  PartsEnd table depth t m ∧
    ∃ e m', runIn m (t.run table (depth + 1)) = (.error (.error e), m') ∧ e.cause = cause

/-- When the program is run from the state, an error is raised for the cause while the tasks of the
stack have begun and not ended. -/
def RaisedIn (depth : Nat) (frame : FrameId) (p : Ast.Program) (m : Machine)
    (cause : EvalError.Cause) (stack : List Task) : Prop :=
  ∃ s m₁ depth' t m₂, TurnOfStmt table depth frame p.statements m s m₁ ∧
    Stacked table depth (.stmt frame s) m₁ stack (depth' + 1) t m₂ ∧ Raises table depth' t m₂ cause

variable {table}

section Stack

variable {depth depth' : Nat} {t t' : Task} {m m' : Machine} {stack : List Task}

/-- The innermost task of the stack is the one that is begun. -/
theorem Stacked.head?_eq (h : Stacked table depth t m stack depth' t' m') :
    stack.head? = some t' := by
  induction h with
  | itself => rfl
  | @through _ _ _ _ _ _ _ _ stack _ _ ih => rw [List.head?_append, ih, Option.some_or]

/-- A function is applied by a call, on its line, or by a builtin that is applied, on no line. -/
theorem Begins.apply_cases {line : Option Int} {function : Value} {args : List Value}
    (h : Begins table depth t m (.apply line function args) m') :
    (∃ frame callee es l, t = .expr frame (.call callee es l) ∧ line = some l) ∨
      t.IsApply ∧ line = none := by
  cases h with
  | call line => exact .inl ⟨_, _, _, line, rfl, rfl⟩
  | mapped => exact .inr ⟨trivial, rfl⟩

/-- The innermost line of a stack is that of its innermost node, which is a call if the innermost
task applies a function; or else there are only applications in the stack. -/
theorem Stacked.innermost (h : Stacked table depth t m stack depth' t' m') :
    (∃ n, stack.findSome? Task.node? = some n ∧ stack.findSome? Task.line = some n.line ∧
      (t'.IsApply → n.IsCall)) ∨
    stack.findSome? Task.node? = none ∧ stack.findSome? Task.line = t.line ∧ t.IsApply := by
  induction h with
  | itself depth t m =>
    rw [List.findSome?_singleton, List.findSome?_singleton]
    cases t with
    | expr frame e => exact .inl ⟨_, rfl, rfl, False.elim⟩
    | stmt frame s => exact .inl ⟨_, rfl, rfl, False.elim⟩
    | apply line function args => exact .inr ⟨rfl, rfl, trivial⟩
  | @through _ _ t t₁ t' _ _ _ stack hbegins _ ih =>
    simp only [List.findSome?_append, List.findSome?_singleton]
    obtain ⟨n, hnode, hline, hcall⟩ | ⟨hnode, hline, happly⟩ := ih
    · exact .inl ⟨n, by rw [hnode, Option.some_or], by rw [hline, Option.some_or], hcall⟩
    · rw [hnode, hline, Option.none_or]
      cases t₁ with
      | expr frame e => exact happly.elim
      | stmt frame s => exact happly.elim
      | apply line function args =>
        obtain ⟨frame, callee, es, l, rfl, rfl⟩ | ⟨houter, rfl⟩ := hbegins.apply_cases
        · exact .inl ⟨_, rfl, rfl, fun _ => trivial⟩
        · cases t with
          | expr frame e => exact houter.elim
          | stmt frame s => exact houter.elim
          | apply line' function' args' => exact .inr ⟨rfl, rfl, trivial⟩

/-- An error that the innermost task raises on its line ends the outermost one, on the innermost
line of the stack. -/
theorem Stacked.fails (h : Stacked table depth t m stack depth' t' m') {cause : EvalError.Cause}
    {m₂ : Machine} (hraise : runIn m' (t'.run table depth') =
      (.error (.error ⟨cause, t'.line⟩), m₂)) :
    runIn m (t.run table depth) =
      (.error (.error ⟨cause, stack.findSome? Task.line⟩), m₂) := by
  induction h with
  | itself depth t m =>
    rw [List.findSome?_singleton]
    exact hraise
  | through hbegins _ ih =>
    rw [List.findSome?_append, List.findSome?_singleton]
    exact hbegins.fails (ih hraise)

/-- A property that the outermost task hands on goes to all tasks of the stack. -/
theorem Stacked.inherits {h : Inherited} (hstacked : Stacked table depth t m stack depth' t' m')
    (hm : m.store.Inherits h) (ht : t.Inherits h) : ∀ u ∈ stack, u.Inherits h := by
  induction hstacked with
  | itself depth t m => exact List.forall_mem_singleton.mpr ht
  | through hbegins _ ih =>
    obtain ⟨hm₁, ht₁⟩ := hbegins.inherits hm ht
    exact List.forall_mem_append.mpr ⟨ih hm₁ ht₁, List.forall_mem_singleton.mpr ht⟩

/-- Whenever a task ends in an error, a task in its course has raised it. -/
theorem exists_raises {e : EvalError}
    (hrun : runIn m (t.run table depth) = (.error (.error e), m')) :
    ∃ stack depth' t' m₁, Stacked table depth t m stack (depth' + 1) t' m₁ ∧
      Raises table depth' t' m₁ e.cause := by
  -- Either all parts have ended, or some part has failed and the error is that of the part.
  induction depth generalizing t m e with
  | zero => cases t <;> cases hrun
  | succ depth ih =>
    by_cases hparts : PartsEnd table depth t m
    · exact ⟨[t], depth, t, m, .itself .., hparts, e, m', hrun, rfl⟩
    · simp only [PartsEnd, not_forall] at hparts
      obtain ⟨t₁, m₁, hbegins, hfails⟩ := hparts
      match hpart : runIn m₁ (t₁.run table depth) with
      | (.ok v, m₂) => exact absurd ⟨v, m₂, hpart⟩ hfails
      | (.error fault, m₂) =>
        have heq := (hbegins.fails hpart).symm.trans hrun
        cases fault with
        | error e₁ =>
          cases heq
          obtain ⟨stack, depth', t', m', hstacked, hraises⟩ := ih hpart
          exact ⟨stack ++ [t], depth', t', m', .through hbegins hstacked, hraises⟩
        | illFormed _ | exhausted => cases heq

end Stack

section Program

variable {depth : Nat} {frame : FrameId} {p : Ast.Program} {m m' : Machine} {e : EvalError}

/-- A program whose statements fail with an error fails with it. -/
theorem node_error (h : runIn m (statements (stmt table depth frame) p.statements) =
    (.error (.error e), m')) :
    runIn m (node table depth frame (.program p)) = (.error (.error e), m') := by
  rw [node, runIn_reportingExhaustion, runIn_bind_error h]
  rfl

/-- An error of a program that is not the report on running out of depth is one of its
statements. -/
theorem statements_error
    (h : runIn m (node table depth frame (.program p)) = (.error (.error e), m'))
    (hcause : e.cause ≠ .recursionLimit) :
    runIn m (statements (stmt table depth frame) p.statements) = (.error (.error e), m') := by
  rw [node, runIn_reportingExhaustion, runIn_bind] at h
  rcases hrun : runIn m (statements (stmt table depth frame) p.statements) with ⟨outcome, m₁⟩
  rw [hrun] at h
  cases outcome with
  | ok c => cases h
  | error fault =>
    cases fault with
    | illFormed _ => cases h
    | exhausted =>
      cases h
      exact absurd rfl hcause
    | error e' =>
      cases h
      rfl

/-- The error of a program has been raised in the course of it. -/
theorem exists_raisedIn
    (h : runIn m (statements (stmt table depth frame) p.statements) = (.error (.error e), m')) :
    ∃ stack, RaisedIn table depth frame p m e.cause stack := by
  have hturn : ∃ s m₁, TurnOfStmt table depth frame p.statements m s m₁ ∧
      runIn m₁ ((Task.stmt frame s).run table depth) = (.error (.error e), m') := by
    by_contra hnone
    have hok : ∃ c m₂,
        runIn m (statements (stmt table depth frame) p.statements) = (.ok c, m₂) := by
      refine stmts_ok fun s m₁ hturn => ?_
      match hs : runIn m₁ ((Task.stmt frame s).run table depth) with
      | (.ok v, m₂) => exact ⟨v, m₂, rfl⟩
      | (.error fault, m₂) =>
        have heq := (hturn.fails hs).symm.trans h
        cases heq
        exact absurd ⟨s, m₁, hturn, hs⟩ hnone
    obtain ⟨c, m₂, hok⟩ := hok
    cases hok.symm.trans h
  obtain ⟨s, m₁, hturn, hs⟩ := hturn
  obtain ⟨stack, depth', t, m₂, hstacked, hraises⟩ := exists_raises hs
  exact ⟨stack, s, m₁, depth', t, m₂, hturn, hstacked, hraises⟩

/-- An error that is raised in the course of a program is the error of the program, for the
innermost node of the stack. -/
theorem RaisedIn.located {cause : EvalError.Cause} {stack : List Task}
    (h : RaisedIn table depth frame p m cause stack) :
    ∃ n m', stack.findSome? Task.node? = some n ∧
      runIn m (node table depth frame (.program p)) =
        (.error (.error ⟨cause, some n.line⟩), m') ∧
      (cause.OfCall ↔ ∃ line function args, stack.head? = some (.apply line function args)) ∧
      (cause.OfCall → n.IsCall) := by
  obtain ⟨s, m₁, depth', t, m₂, hturn, hstacked, hparts, e, m', hrun, rfl⟩ := h
  obtain ⟨hline, hcall⟩ := raises_own hparts hrun
  obtain ⟨n, hnode, hlines, himp⟩ | ⟨_, _, hroot⟩ := hstacked.innermost
  · have hraise : runIn m₂ (t.run table (depth' + 1)) =
        (.error (.error ⟨e.cause, t.line⟩), m') := by
      rw [← hline]
      exact hrun
    have hstmt := hstacked.fails hraise
    rw [hlines] at hstmt
    refine ⟨n, m', hnode, node_error (hturn.fails hstmt), ?_, himp ∘ hcall.mp⟩
    rw [hcall, hstacked.head?_eq]
    cases t <;> simp [Task.IsApply]
  · exact hroot.elim

end Program

end Eval

/-- The parts of a node on such lines are on such lines. -/
def Inherited.onLines (on : Int → Prop) : Inherited where
  expr := Ast.Expr.LiesOn on
  stmt := Ast.Stmt.LiesOn on
  unary h := h.2
  binary h := h.2
  function h := h.2.statements
  call h := ⟨h.2.1, Ast.lieOn_iff.mp h.2.2⟩
  array h := Ast.lieOn_iff.mp h.2
  index h := h.2
  cond := Ast.Expr.LiesOn.cond
  var h := h.2
  ret h := h.2
  standing h := h.2
  block h := h.elim

namespace Eval

/-- The nodes of the stack are on lines of tokens if the closures of the store are. -/
theorem RaisedIn.onToken {table : BuiltinTable} {depth : Nat} {frame : FrameId} {p : Ast.Program}
    {m : Machine} {cause : EvalError.Cause} {stack : List Task}
    (h : RaisedIn table depth frame p m cause stack) {reading : Depth} {source : String}
    (hp : parse reading source = .ok p)
    (hm : m.store.Inherits (Inherited.onLines (OnToken source))) {n : Ast.Node}
    (hn : stack.findSome? Task.node? = some n) : OnToken source n.line := by
  obtain ⟨s, m₁, depth', t, m₂, hturn, hstacked, -⟩ := h
  obtain ⟨hm₁, hs⟩ := hturn.inherits hm (liesOn_of_parse hp)
  obtain ⟨u, hu, hnode⟩ := List.exists_of_findSome?_eq_some hn
  have hinherits := hstacked.inherits hm₁ hs u hu
  cases u with
  | expr frame e =>
    cases hnode
    exact Ast.Expr.LiesOn.line hinherits
  | stmt frame s =>
    cases hnode
    exact Ast.Stmt.LiesOn.line hinherits
  | apply => cases hnode

/-- Every error of an accepted text that is run, whatever the store, has a line, unless it is the
report on running out of depth. The error has been raised while some tasks had begun and not ended,
and whenever it has been raised with these on the stack, its line is that of the innermost
expression or statement among them. If the innermost task was to apply a function, which is so just
for the causes that lie with calls, then the innermost node is a call. In a fresh store the line is
that of a token. -/
theorem error_located {reading : Depth} {source : String} {p : Ast.Program}
    (hp : parse reading source = .ok p) (table : BuiltinTable) (depth : Nat) (frame : FrameId)
    {m m' : Machine} {e : EvalError}
    (hrun : runIn m (node table depth frame (.program p)) = (.error (.error e), m'))
    (hcause : e.cause ≠ .recursionLimit) :
    (∃ stack, RaisedIn table depth frame p m e.cause stack) ∧
    (∀ stack, RaisedIn table depth frame p m e.cause stack →
      ∃ n, stack.findSome? Task.node? = some n ∧ e.line = some n.line ∧
        (e.cause.OfCall ↔ ∃ line function args, stack.head? = some (.apply line function args)) ∧
        (e.cause.OfCall → n.IsCall)) ∧
    (m.store = Store.empty.newFrame.2 →
      ∃ t ∈ (tokenStream source).tokens, e.line = some (t.line : Int)) := by
  have hexists := exists_raisedIn (statements_error hrun hcause)
  have hall : ∀ stack, RaisedIn table depth frame p m e.cause stack →
      ∃ n, stack.findSome? Task.node? = some n ∧ e.line = some n.line ∧
        (e.cause.OfCall ↔ ∃ line function args, stack.head? = some (.apply line function args)) ∧
        (e.cause.OfCall → n.IsCall) := by
    intro stack hraised
    obtain ⟨n, m₂, hn, hlocated, happly, hcall⟩ := hraised.located
    rw [hrun] at hlocated
    have hresult := (Prod.mk.inj hlocated).1
    have he : e = ⟨e.cause, some n.line⟩ := Fault.error.inj (Except.error.inj hresult)
    exact ⟨n, hn, congrArg EvalError.line he, happly, hcall⟩
  refine ⟨hexists, hall, fun hfresh => ?_⟩
  obtain ⟨stack, hraised⟩ := hexists
  obtain ⟨n, hn, hline, -⟩ := hall stack hraised
  have hm : m.store.Inherits (Inherited.onLines (OnToken source)) := by
    rw [hfresh]
    exact Store.inherits_empty.push none
  obtain ⟨t, ht, htoken⟩ := hraised.onToken hp hm hn
  exact ⟨t, ht, hline.trans (congrArg some htoken.symm)⟩

/-- A builtin is applied to each element of an array, one of which it does not take: the error is on
the line of the call of `map`. -/
theorem error_located_callback :
    let m : Machine := ⟨Store.empty.newFrame.2, "", []⟩
    let source := "var xs = [1];\nmap(xs,\n  len)"
    let p : Ast.Program := ⟨[.var ⟨"xs", 1⟩ (.array [.int 1 1] 1) 1,
      .expr (.call (.ident "map" 2) [.ident "xs" 2, .ident "len" 3] 2) 2]⟩
    let e : EvalError := ⟨.argumentKind "len" .array .integer, some 2⟩
    parse .unbounded source = .ok p ∧
      (runIn m (node .standard 9 0 (.program p))).1 = .error (.error e) ∧
      (∃ stack, RaisedIn .standard 9 0 p m e.cause stack) ∧
      ∃ t ∈ (tokenStream source).tokens, e.line = some (t.line : Int) := by
  intro m source p e
  have hp : parse .unbounded source = .ok p := by
    have htokens : tokenStream source =
        ⟨[⟨.kwVar, "var", 1⟩, ⟨.ident, "xs", 1⟩, ⟨.assign, "=", 1⟩, ⟨.leftBracket, "[", 1⟩,
          ⟨.integer, "1", 1⟩, ⟨.rightBracket, "]", 1⟩, ⟨.semicolon, ";", 1⟩, ⟨.ident, "map", 2⟩,
          ⟨.leftParen, "(", 2⟩, ⟨.ident, "xs", 2⟩, ⟨.comma, ",", 2⟩, ⟨.ident, "len", 3⟩,
          ⟨.rightParen, ")", 3⟩], 3⟩ := by decide +kernel
    have htree : Surface.parse .unbounded source =
        .ok [.var ⟨"xs", 1⟩ (.array [.integer "1" 1] 1) 1,
          .expr (.call (.ident "map" 2) [.ident "xs" 2, .ident "len" 3] 2) 2] := by
      rw [Surface.parse_eq_unrolled 100, htokens]
      rfl
    rw [parse, htree]
    rfl
  have hrun : (runIn m (node .standard 9 0 (.program p))).1 = .error (.error e) := by
    with_unfolding_all rfl
  have hall := error_located hp .standard 9 0 (Prod.ext hrun rfl) (by decide)
  exact ⟨hp, hrun, hall.1, hall.2.2 rfl⟩

end Eval

end EtherLang
