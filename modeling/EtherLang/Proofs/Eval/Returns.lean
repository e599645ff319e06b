import EtherLang.Proofs.Eval.Location

/-!
# Where a `return` goes

A `return` that is executed goes outward through the tasks that have begun and not ended, up to the
body that it belongs to: a call or the program. An `if` that stands as a statement lets it pass. An
`if` whose value is wanted cannot, and the first of these turns it into an error on its own line. In
both cases nothing else is done any more: the state is the one in which the value to be returned was
found, whatever statements follow in the lists that the `return` leaves.

A body ends in a `return` only through a `return` of its own. To the caller a call is a value.
-/

namespace EtherLang

/-- The line of an `if` that is evaluated for its value; one that stands as a statement is executed
with the statement. -/
def Task.wantedLine? : Task → Option Int
  | .expr _ (.cond _ _ _ line) => some line
  | _ => none

namespace Eval

/-- What comes of a `return` on its way out through the tasks, the innermost one first. -/
def arrival {α : Type} (way : List Task) (a : α) : Except Fault α :=
  match way.findSome? Task.wantedLine? with
  | none => .ok a
  | some line => .error (.error ⟨.returnInValue, some line⟩)

variable (table : BuiltinTable)

/-- The task is a statement that ends in a `return` of the value. -/
def EndsInReturn (depth : Nat) (t : Task) (m : Machine) (v : Value) (m' : Machine) : Prop :=
  ∃ frame s, t = .stmt frame s ∧ runIn m (stmt table depth frame s) = (.ok (.returning v), m')

/-- In the course of the task a `return` of the same body is executed, whose value is found in the
last state; the way out to the task leads through these tasks, the innermost one first. -/
def Returns (depth : Nat) (t : Task) (m : Machine) (way : List Task) (v : Value) (m' : Machine) :
    Prop :=
  ∃ depth' frame e line m₁,
    Stacked table depth t m way (depth' + 1) (.stmt frame (.ret e line)) m₁ ∧
      (∀ u ∈ way, ¬u.IsApply) ∧ runIn m₁ (expr table depth' frame e) = (.ok v, m')

variable {table}

section Lists

variable {m m₁ m' : Machine} {execute : Ast.Stmt → Eval Completion} {s : Ast.Stmt} {v : Value}

/-- Statements end at the first one that ends in a `return`. -/
theorem runIn_statements_returning {before : List Ast.Stmt} {value : Value}
    (hbefore : runIn m (statements execute before) = (.ok (.normal value), m₁))
    (hs : runIn m₁ (execute s) = (.ok (.returning v), m')) (after : List Ast.Stmt) :
    runIn m (statements execute (before ++ s :: after)) = (.ok (.returning v), m') := by
  rw [statements, runIn_statementsAfter_append hbefore, statementsAfter, runIn_bind_ok hs]
  rfl

/-- Statements that end in a `return` have come to one that ends in it. -/
theorem exists_of_statementsAfter_returning {ss : List Ast.Stmt} {last : Value}
    (h : runIn m (statementsAfter (.normal last) execute ss) = (.ok (.returning v), m')) :
    ∃ before s after value m₁, ss = before ++ s :: after ∧
      runIn m (statementsAfter (.normal last) execute before) = (.ok (.normal value), m₁) ∧
      runIn m₁ (execute s) = (.ok (.returning v), m') := by
  induction ss generalizing m last with
  | nil => cases h
  | cons s ss ih =>
    rw [statementsAfter] at h
    rcases hs : runIn m (execute s) with ⟨result, m₁⟩
    cases result with
    | error fault =>
      rw [runIn_bind_error hs] at h
      cases h
    | ok c =>
      rw [runIn_bind_ok hs] at h
      cases c with
      | returning w =>
        cases h
        exact ⟨[], s, ss, last, m, rfl, rfl, hs⟩
      | normal w =>
        obtain ⟨before, s', after, value, m₂, rfl, hbefore, hs'⟩ := ih h
        refine ⟨s :: before, s', after, value, m₂, rfl, ?_, hs'⟩
        rw [statementsAfter, runIn_bind_ok hs]
        exact hbefore

end Lists

section Way

variable {depth depth' : Nat} {t t₁ t' : Task} {m m₁ m₂ m' : Machine} {way : List Task} {v : Value}
  {frame : FrameId}

/-- An error without a line gets the line that errors are placed on. -/
theorem runIn_placedAt_fail {α : Type} {action : Eval α} {cause : EvalError.Cause}
    (h : runIn m action = (.error (.error ⟨cause, none⟩), m')) (line : Int) :
    runIn m (placedAt (some line) action) = (.error (.error ⟨cause, some line⟩), m') :=
  runIn_placedAt_error h (some line)

/-- A `return` statement whose value is found ends in a `return`. -/
theorem endsInReturn_ret {e : Ast.Expr} (h : runIn m (expr table depth frame e) = (.ok v, m'))
    (line : Int) : EndsInReturn table (depth + 1) (.stmt frame (.ret e line)) m v m' := by
  refine ⟨frame, _, rfl, ?_⟩
  rw [stmt.eq_def]
  exact runIn_placedAt_ok (runIn_bind_ok h _) _

/-- A list of statements ends in a `return` when one of them does. -/
theorem TurnOfStmt.returns {ss : List Ast.Stmt} {s : Ast.Stmt}
    (hturn : TurnOfStmt table depth frame ss m s m₁)
    (h : runIn m₁ (stmt table depth frame s) = (.ok (.returning v), m')) :
    runIn m (statements (stmt table depth frame) ss) = (.ok (.returning v), m') := by
  obtain ⟨before, after, value, rfl, hbefore⟩ := hturn
  exact runIn_statements_returning hbefore h after

/-- A `return` goes on from a task to the one that has begun it. -/
theorem Begins.returns (hbegins : Begins table depth t m t₁ m₁) (ht : ¬t.IsApply)
    (h : EndsInReturn table depth t₁ m₁ v m') :
    match t.wantedLine? with
    | none => EndsInReturn table (depth + 1) t m v m'
    | some line =>
      runIn m (t.run table (depth + 1)) = (.error (.error ⟨.returnInValue, some line⟩), m') := by
  obtain ⟨frame, s, rfl, h⟩ := h
  cases hbegins with
  | branch hcond hcondition hselects hturn =>
    have hbranch := (runIn_branch_selects hcondition hselects _).trans (hturn.returns h)
    cases hcond with
    | expr =>
      change runIn m (Eval.expr table (depth + 1) _ _) = _
      rw [expr.eq_def]
      exact runIn_placedAt_fail (runIn_bind_ok hbranch _) _
    | stmt =>
      refine ⟨frame, _, rfl, ?_⟩
      rw [stmt.eq_def]
      exact runIn_placedAt_ok hbranch _
  | inBlock hturn =>
    refine ⟨frame, _, rfl, ?_⟩
    rw [stmt.eq_def]
    exact runIn_placedAt_ok (hturn.returns h) _
  | body => exact absurd trivial ht

/-- An error that has its line goes out to the task in the course of which it is raised. -/
theorem Passes.fails {cause : EvalError.Cause} {line : Int}
    (h : Passes table depth t m depth' t' m₁)
    (herror : runIn m₁ (t'.run table depth') = (.error (.error ⟨cause, some line⟩), m')) :
    runIn m (t.run table depth) = (.error (.error ⟨cause, some line⟩), m') := by
  induction h with
  | itself => exact herror
  | through hbegins _ ih => exact hbegins.fails (ih herror)

/-- A `return` goes on from a task to every one in the course of which it is executed, up to the
first `if` whose value is wanted. -/
theorem Stacked.returns (h : Stacked table depth t m way depth' t' m₁)
    (hway : ∀ u ∈ way, ¬u.IsApply) (hreturn : EndsInReturn table depth' t' m₁ v m') :
    match way.findSome? Task.wantedLine? with
    | none => EndsInReturn table depth t m v m'
    | some line =>
      runIn m (t.run table depth) = (.error (.error ⟨.returnInValue, some line⟩), m') := by
  induction h with
  | itself depth t m =>
    obtain ⟨frame, s, rfl, hs⟩ := hreturn
    exact ⟨frame, s, rfl, hs⟩
  | @through _ _ t t₁ _ _ _ _ stack hbegins _ ih =>
    obtain ⟨hstack, ht⟩ := List.forall_mem_append.mp hway
    have hinner := ih hstack hreturn
    rw [List.findSome?_append, List.findSome?_singleton]
    cases hwanted : stack.findSome? Task.wantedLine? with
    | none =>
      rw [hwanted] at hinner
      exact hbegins.returns (ht _ List.mem_cons_self) hinner
    | some line =>
      rw [hwanted] at hinner
      exact hbegins.fails hinner

/-- A statement in the course of which a `return` of the same body is executed ends as the `return`
arrives there. -/
theorem Returns.runIn_stmt {s : Ast.Stmt} (h : Returns table depth (.stmt frame s) m way v m') :
    runIn m (stmt table depth frame s) = (arrival way (.returning v), m') := by
  obtain ⟨depth', f, e, line, m₁, hstacked, hway, he⟩ := h
  have hreturns := hstacked.returns hway (endsInReturn_ret he line)
  unfold arrival
  cases hwanted : way.findSome? Task.wantedLine? with
  | none =>
    rw [hwanted] at hreturns
    obtain ⟨_, _, ⟨⟩, hs⟩ := hreturns
    exact hs
  | some line =>
    rw [hwanted] at hreturns
    exact run_stmt_error hreturns

end Way

section Origin

variable {α β : Type} {depth : Nat} {t : Task} {m m₁ m' : Machine} {v : Value} {frame : FrameId}

/-- A computation that gives a value where errors are placed gives it by itself. -/
theorem runIn_of_placedAt_ok {action : Eval α} {a : α} {line : Option Int}
    (h : runIn m (placedAt line action) = (.ok a, m')) : runIn m action = (.ok a, m') := by
  match haction : runIn m action with
  | (.ok a', m₁) => exact (runIn_placedAt_ok haction line).symm.trans h
  | (.error fault, m₁) => cases (runIn_placedAt_error haction line).symm.trans h

/-- If two computations one after the other give a value, then both do. -/
theorem exists_of_bind_ok {x : Eval α} {f : α → Eval β} {b : β}
    (h : runIn m (x >>= f) = (.ok b, m')) :
    ∃ a m₁, runIn m x = (.ok a, m₁) ∧ runIn m₁ (f a) = (.ok b, m') := by
  match hx : runIn m x with
  | (.ok a, m₁) => exact ⟨a, m₁, rfl, (runIn_bind_ok hx f).symm.trans h⟩
  | (.error fault, m₁) => cases (runIn_bind_error hx f).symm.trans h

/-- An `if` that ends in a `return` has come to a statement of the branch that it selects. -/
theorem exists_of_branch_returning {condition : Ast.Expr} {consequence : Ast.Block}
    {alternative : Option Ast.Block}
    (h : runIn m (branch (expr table depth frame) (stmt table depth frame) condition consequence
      alternative) = (.ok (.returning v), m')) :
    ∃ value m₁ body, runIn m (expr table depth frame condition) = (.ok value, m₁) ∧
      Selects value consequence alternative body ∧
      runIn m₁ (statements (stmt table depth frame) body.statements) =
        (.ok (.returning v), m') := by
  obtain ⟨value, m₁, hcondition, hbranch⟩ := exists_of_bind_ok h
  by_cases htruthy : value.truthy = true
  · rw [if_pos htruthy] at hbranch
    exact ⟨value, m₁, consequence, hcondition, by rw [Selects, if_pos htruthy], hbranch⟩
  · rw [if_neg htruthy] at hbranch
    cases alternative with
    | none => cases hbranch
    | some body => exact ⟨value, m₁, body, hcondition, by rw [Selects, if_neg htruthy], hbranch⟩

/-- What a task begins may be left by a `return` that the task lets pass. -/
theorem Returns.through {t₁ : Task} {way : List Task} (hbegins : Begins table depth t m t₁ m₁)
    (ht : ¬t.IsApply) (h : Returns table depth t₁ m₁ way v m') :
    Returns table (depth + 1) t m (way ++ [t]) v m' := by
  obtain ⟨depth', f, e, line, m₂, hstacked, hway, he⟩ := h
  refine ⟨depth', f, e, line, m₂, .through hbegins hstacked, ?_, he⟩
  exact List.forall_mem_append.mpr ⟨hway, fun u hu => List.mem_singleton.mp hu ▸ ht⟩

/-- A statement that ends in a `return` has executed one of the same body, and no `if` whose value
is wanted is on the way. -/
theorem exists_returns_of_stmt {s : Ast.Stmt}
    (h : runIn m (stmt table depth frame s) = (.ok (.returning v), m')) :
    ∃ way, Returns table depth (.stmt frame s) m way v m' ∧
      way.findSome? Task.wantedLine? = none := by
  induction depth generalizing m frame s with
  | zero => cases h
  | succ depth ih =>
    -- A statement is left only by itself or by a statement of a list in it.
    have hlist : ∀ {ss m₁}, runIn m₁ (statements (stmt table depth frame) ss) =
        (.ok (.returning v), m') →
        (∀ s' m₂, TurnOfStmt table depth frame ss m₁ s' m₂ →
          Begins table depth (.stmt frame s) m (.stmt frame s') m₂) →
        ∃ way, Returns table (depth + 1) (.stmt frame s) m way v m' ∧
          way.findSome? Task.wantedLine? = none := by
      intro ss m₁ hss hbegins
      obtain ⟨before, s', after, value, m₂, rfl, hbefore, hs'⟩ :=
        exists_of_statementsAfter_returning hss
      obtain ⟨way, hreturns, hfree⟩ := ih hs'
      have hturn : TurnOfStmt table depth frame (before ++ s' :: after) m₁ s' m₂ :=
        ⟨before, after, value, rfl, hbefore⟩
      refine ⟨_, hreturns.through (hbegins s' m₂ hturn) id, ?_⟩
      rw [List.findSome?_append, hfree]
      rfl
    rw [stmt.eq_def] at h
    have hs := runIn_of_placedAt_ok h
    cases s with
    | var target e line =>
      obtain ⟨_, _, _, hs⟩ := exists_of_bind_ok hs
      cases hs
    | ret e line =>
      obtain ⟨w, m₁, he, hs⟩ := exists_of_bind_ok hs
      cases hs
      exact ⟨_, ⟨depth, frame, e, line, m, .itself .., by simp [Task.IsApply], he⟩, rfl⟩
    | expr e line =>
      cases e with
      | cond condition consequence alternative line' =>
        obtain ⟨value, m₁, body, hcondition, hselects, hbody⟩ := exists_of_branch_returning hs
        exact hlist hbody fun s' m₂ hturn => .branch (.stmt ..) hcondition hselects hturn
      | _ =>
        obtain ⟨_, _, _, hs⟩ := exists_of_bind_ok hs
        cases hs
    | block body => exact hlist hs fun s' m₂ hturn => .inBlock hturn
    | misplaced | program => cases hs

end Origin

section Body

variable {depth : Nat} {frame : FrameId} {s : Ast.Stmt} {m m₀ m₁ m' : Machine} {way : List Task}
  {v value : Value} {before : List Ast.Stmt}

/-- Statements end as a `return` of one of them arrives, whatever statements follow. -/
theorem Returns.runIn_statements (h : Returns table depth (.stmt frame s) m₁ way v m')
    (hbefore : runIn m (statements (stmt table depth frame) before) = (.ok (.normal value), m₁))
    (after : List Ast.Stmt) :
    runIn m (statements (stmt table depth frame) (before ++ s :: after)) =
      (arrival way (.returning v), m') := by
  have hs := h.runIn_stmt
  unfold arrival at hs ⊢
  split
  · next hwanted =>
    rw [hwanted] at hs
    exact runIn_statements_returning hbefore hs after
  · next line hwanted =>
    rw [hwanted] at hs
    exact runIn_statements_error hbefore hs after

/-- The value that statements end with is what is returned, if a `return` arrives. -/
theorem Returns.runIn_value (h : Returns table depth (.stmt frame s) m₁ way v m')
    (hbefore : runIn m (statements (stmt table depth frame) before) = (.ok (.normal value), m₁))
    (after : List Ast.Stmt) :
    runIn m (do return (← statements (stmt table depth frame) (before ++ s :: after)).value) =
      (arrival way v, m') := by
  have hstatements := h.runIn_statements hbefore after
  rw [runIn_bind, hstatements]
  unfold arrival
  split <;> rfl

/-- What arrives has its place already. -/
theorem runIn_placedAt_arrival {α : Type} {action : Eval α} {a : α}
    (h : runIn m action = (arrival way a, m')) (line : Option Int) :
    runIn m (placedAt line action) = (arrival way a, m') := by
  rw [runIn_placedAt, h]
  unfold arrival
  split <;> rfl

/-- A program ends with what one of its statements returns. -/
theorem Returns.runIn_program (h : Returns table depth (.stmt frame s) m₁ way v m')
    (hbefore : runIn m (statements (stmt table depth frame) before) = (.ok (.normal value), m₁))
    (after : List Ast.Stmt) :
    runIn m (node table depth frame (.program ⟨before ++ s :: after⟩)) = (arrival way v, m') := by
  rw [node, runIn_reportingExhaustion, h.runIn_value hbefore after]
  unfold arrival
  split <;> rfl

/-- A call ends with what a statement of the function returns. -/
theorem Returns.runIn_apply (h : Returns table depth (.stmt frame s) m₁ way v m')
    (hbefore : runIn m (statements (stmt table depth frame) before) = (.ok (.normal value), m₁))
    (after : List Ast.Stmt) {captured : FrameId} {params : List Ident} {args : List Value}
    (hlength : args.length = params.length)
    (henter : runIn m₀ (enter captured params args) = (.ok frame, m)) (line : Option Int)
    (line' : Int) :
    runIn m₀ (apply table (depth + 1) line
      (.closure params (.mk (before ++ s :: after) line') captured) args) =
        (arrival way v, m') := by
  rw [apply.eq_def]
  refine runIn_placedAt_arrival ?_ line
  change runIn m₀ (if args.length ≠ params.length then _ else _) = _
  rw [if_neg (not_not_intro hlength), runIn_body henter]
  exact h.runIn_value hbefore after

/-- Statements end in a `return` just if one of them executes a `return` of the same body and no
`if` whose value is wanted is on the way. -/
theorem statements_returning_iff {ss : List Ast.Stmt} :
    runIn m (statements (stmt table depth frame) ss) = (.ok (.returning v), m') ↔
      ∃ s m₁ way, TurnOfStmt table depth frame ss m s m₁ ∧
        Returns table depth (.stmt frame s) m₁ way v m' ∧
        way.findSome? Task.wantedLine? = none := by
  constructor
  · intro h
    obtain ⟨before, s, after, value, m₁, rfl, hbefore, hs⟩ := exists_of_statementsAfter_returning h
    obtain ⟨way, hreturns, hfree⟩ := exists_returns_of_stmt hs
    exact ⟨s, m₁, way, ⟨before, after, value, rfl, hbefore⟩, hreturns, hfree⟩
  · rintro ⟨s, m₁, way, ⟨before, after, value, rfl, hbefore⟩, hreturns, hfree⟩
    rw [hreturns.runIn_statements hbefore after, arrival, hfree]

/-- A `return` that an `if` stops ends the whole program. -/
theorem Returns.runIn_of_inCourse (h : Returns table depth (.stmt frame s) m₁ way v m')
    {line : Int} (hwanted : way.findSome? Task.wantedLine? = some line) {depth₀ : Nat}
    {frame₀ : FrameId} {p : Ast.Program}
    (hcourse : InCourse table depth₀ frame₀ p m₀ depth (.stmt frame s) m₁) :
    runIn m₀ (node table depth₀ frame₀ (.program p)) =
      (.error (.error ⟨.returnInValue, some line⟩), m') := by
  obtain ⟨s₀, m, hturn, hpasses⟩ := hcourse
  have hs := h.runIn_stmt
  rw [arrival, hwanted] at hs
  have hrun : runIn m₁ ((Task.stmt frame s).run table depth) =
      (.error (.error ⟨.returnInValue, some line⟩), m') := runIn_bind_error hs _
  exact node_error (hturn.fails (hpasses.fails hrun))

end Body

/-- Let a statement have its turn in a list, and let a `return` of the same body be executed in the
course of it. Then the list ends there and then, whatever follows in it. If every `if` on the way
out to the list stands as a statement, then the list ends in the `return`, and the program or the
call whose body it is ends with the value. If not, then the first `if` on the way whose value is
wanted has the line of the error that the list, the call and the whole program end in. A list ends
in a `return` only if one of the same body is executed in the course of one of its statements. -/
theorem return_ends_body (table : BuiltinTable) :
    (∀ depth frame s m₁ way v m', Returns table depth (.stmt frame s) m₁ way v m' →
      (∀ m before value after,
        runIn m (statements (stmt table depth frame) before) = (.ok (.normal value), m₁) →
        runIn m (statements (stmt table depth frame) (before ++ s :: after)) =
            (arrival way (.returning v), m') ∧
          runIn m (node table depth frame (.program ⟨before ++ s :: after⟩)) =
            (arrival way v, m') ∧
          ∀ m₀ params args captured line line', args.length = params.length →
            runIn m₀ (enter captured params args) = (.ok frame, m) →
            runIn m₀ (apply table (depth + 1) line
              (.closure params (.mk (before ++ s :: after) line') captured) args) =
                (arrival way v, m')) ∧
      ∀ line, way.findSome? Task.wantedLine? = some line →
        EvalError.message ⟨.returnInValue, some line⟩ =
            "'return' inside an if expression used as a value" ∧
          ∀ depth₀ frame₀ p m₀, InCourse table depth₀ frame₀ p m₀ depth (.stmt frame s) m₁ →
            runIn m₀ (node table depth₀ frame₀ (.program p)) =
              (.error (.error ⟨.returnInValue, some line⟩), m')) ∧
    ∀ depth frame ss m v m',
      runIn m (statements (stmt table depth frame) ss) = (.ok (.returning v), m') ↔
        ∃ s m₁ way, TurnOfStmt table depth frame ss m s m₁ ∧
          Returns table depth (.stmt frame s) m₁ way v m' ∧
          way.findSome? Task.wantedLine? = none := by
  refine ⟨fun depth frame s m₁ way v m' h => ⟨?_, ?_⟩, fun _ _ _ _ _ _ => statements_returning_iff⟩
  · intro m before value after hbefore
    refine ⟨h.runIn_statements hbefore after, h.runIn_program hbefore after, ?_⟩
    intro m₀ params args captured line line' hlength henter
    exact h.runIn_apply hbefore after hlength henter line line'
  · intro line hwanted
    exact ⟨rfl, fun depth₀ frame₀ p m₀ hcourse => h.runIn_of_inCourse hwanted hcourse⟩

/-- An `if` on line two with a `return` before another statement. -/
def returningIf : Ast.Expr :=
  .cond (.bool true 2) (.mk [.ret (.int 7 3) 3, .expr (.int 8 4) 4] 2) none 2

/-- The `return` is executed in the course of the `if`, as a statement or for its value. -/
theorem returns_returningIf {t : Task} {frame : FrameId}
    (ht : t.IsCond frame (.bool true 2) (.mk [.ret (.int 7 3) 3, .expr (.int 8 4) 4] 2) none)
    (table : BuiltinTable) (m : Machine) :
    Returns table 3 t m [.stmt frame (.ret (.int 7 3) 3), t] (.int 7) m := by
  have hbegins : Begins table 2 t m (.stmt frame (.ret (.int 7 3) 3)) m :=
    .branch ht rfl rfl ⟨[], _, .null, rfl, rfl⟩
  have hret : Returns table 2 (.stmt frame (.ret (.int 7 3) 3)) m
      [.stmt frame (.ret (.int 7 3) 3)] (.int 7) m :=
    ⟨1, frame, _, _, m, .itself .., by simp [Task.IsApply], rfl⟩
  exact hret.through hbegins (by cases ht <;> exact id)

/-- As a statement of a function or of a program the `if` lets the `return` pass, and the statements
behind it are not executed; as the value of a variable it does not. -/
theorem return_ends_body_returningIf :
    let m : Machine := ⟨Store.empty.newFrame.2, "", []⟩
    let standing : Ast.Stmt := .expr returningIf 2
    let assigned : Ast.Stmt := .var ⟨"y", 1⟩ returningIf 1
    let later : Ast.Stmt := .expr (.ident "undefined" 5) 5
    let called : Machine := (runIn m (enter 0 [] [])).2
    runIn m (node .standard 3 0 (.program ⟨[standing, later]⟩)) = (.ok (.int 7), m) ∧
      runIn m (apply .standard 4 (some 6) (.closure [] (.mk [standing, later] 1) 0) []) =
        (.ok (.int 7), called) ∧
      runIn m (node .standard 4 0 (.program ⟨[assigned, later]⟩)) =
        (.error (.error ⟨.returnInValue, some 2⟩), m) := by
  intro m standing assigned later called
  have hstanding (frame : FrameId) (m : Machine) :=
    returns_returningIf (.stmt frame _ _ _ 2 2) .standard m
  have hassigned : Returns .standard 4 (.stmt 0 assigned) m
      [.stmt 0 (.ret (.int 7 3) 3), .expr 0 returningIf, .stmt 0 assigned] (.int 7) m :=
    (returns_returningIf (.expr 0 _ _ _ 2) .standard m).through (.assigned ..) id
  have hprogram := ((return_ends_body .standard).1 _ _ _ _ _ _ _ (hstanding 0 m)).1 m [] .null
    [later] rfl
  have hcall := ((return_ends_body .standard).1 _ _ _ _ _ _ _ (hstanding 1 called)).1 called []
    .null [later] rfl
  have hwanted := ((return_ends_body .standard).1 _ _ _ _ _ _ _ hassigned).2 2 rfl
  refine ⟨hprogram.2.1, hcall.2.2 m [] [] 0 (some 6) 1 rfl rfl, hwanted.2 4 0 _ m ?_⟩
  exact ⟨assigned, m, ⟨[], [later], .null, rfl, rfl⟩, .itself ..⟩

end Eval

end EtherLang
