import EtherLang.Proofs.Eval.Course

/-!
# How tasks fail

A task fails because a task that it begins fails, or else by itself. In the first case nothing else
is begun any more: the fault ends the task, which places it if it is an error without a line. In the
second case everything that was begun has ended with a value, and the fault comes from an operation
on values, from looking up a name, from a `return` that cannot go on or from applying a function.
Such an error has no line of its own, so it gets the line of the task.
-/

namespace EtherLang

/-- The line that a task places errors on; a function that a builtin applies has none. -/
def Task.line : Task → Option Int
  | .expr _ e => some e.line
  | .stmt _ s => some s.line
  | .apply line _ _ => line

/-- The task is to apply a function. -/
def Task.IsApply : Task → Prop
  | .apply .. => True
  | _ => False

/-- The causes that lie with applying a function: it is no function, or its arguments are not what
it takes. -/
def EvalError.Cause.OfCall : EvalError.Cause → Prop
  | .notAFunction .. | .wrongArity .. | .builtinArity .. | .argumentKind .. => True
  | _ => False

namespace Value

variable {v w : Value} {cause : EvalError.Cause}

/-- An operator with one operand does not fail for a cause of calls. -/
theorem not_ofCall_unary {op : Spelled UnaryOp} (h : unary op v = .error cause) :
    ¬cause.OfCall := by
  unfold unary at h
  split at h <;> cases h
  exact id

/-- An operator with two operands does not fail for a cause of calls. -/
theorem not_ofCall_binary {op : Spelled BinaryOp} (h : binary op v w = .error cause) :
    ¬cause.OfCall := by
  rw [binary.eq_def] at h
  split at h
  · cases h
    exact id
  · split at h
    · unfold BinaryOp.onIntegers at h
      split at h
      case h_4 =>
        split at h <;> cases h
        exact id
      all_goals cases h
    · cases h
    · cases h
    · cases h
      exact id

/-- Taking an element does not fail for a cause of calls. -/
theorem not_ofCall_element (h : element v w = .error cause) : ¬cause.OfCall := by
  unfold element at h
  split at h
  · split at h
    · split at h
      · cases h
        exact id
      · split at h <;> cases h
        exact id
    · cases h
      exact id
  · cases h
    exact id

end Value

namespace Eval

section Lists

variable {α β : Type} {m m₁ m₂ : Machine}

/-- After a computation that gives a value the next one runs. -/
theorem runIn_bind_ok {x : Eval α} {a : α} (hx : runIn m x = (.ok a, m₁)) (f : α → Eval β) :
    runIn m (x >>= f) = runIn m₁ (f a) := by
  rw [runIn_bind, hx]
  rfl

/-- After a computation that fails nothing runs. -/
theorem runIn_bind_error {x : Eval α} {fault : Fault} (hx : runIn m x = (.error fault, m₁))
    (f : α → Eval β) : runIn m (x >>= f) = (.error fault, m₁) := by
  rw [runIn_bind, hx]
  rfl

/-- A computation for the members of a list ends at the first member for which it fails. -/
theorem runIn_mapM_error {f : α → Eval β} {before : List α} {values : List β} {x : α}
    {fault : Fault} (hbefore : runIn m (before.mapM f) = (.ok values, m₁))
    (hx : runIn m₁ (f x) = (.error fault, m₂)) (after : List α) :
    runIn m ((before ++ x :: after).mapM f) = (.error fault, m₂) := by
  rw [List.mapM_append, runIn_bind_ok hbefore, List.mapM_cons]
  exact runIn_bind_error (runIn_bind_error hx _) _

/-- A computation for the members of a list that fails for none of them gives values. -/
theorem runIn_mapM_ok {f : α → Eval β} (xs : List α)
    (h : ∀ before x after values m', xs = before ++ x :: after →
      runIn m (before.mapM f) = (.ok values, m') → ∃ a m'', runIn m' (f x) = (.ok a, m'')) :
    ∃ values m', runIn m (xs.mapM f) = (.ok values, m') := by
  induction xs generalizing m with
  | nil => exact ⟨[], m, rfl⟩
  | cons x xs ih =>
    obtain ⟨a, m', hx⟩ := h [] x xs [] m rfl rfl
    have hothers : ∃ values m'', runIn m' (xs.mapM f) = (.ok values, m'') := by
      refine ih fun before y after values m'' hxs hbefore => ?_
      refine h (x :: before) y after (a :: values) m'' (congrArg (x :: ·) hxs) ?_
      rw [List.mapM_cons, runIn_bind_ok hx, runIn_bind_ok hbefore]
      rfl
    obtain ⟨values, m'', hvalues⟩ := hothers
    refine ⟨a :: values, m'', ?_⟩
    rw [List.mapM_cons, runIn_bind_ok hx, runIn_bind_ok hvalues]
    rfl

/-- Statements that end without a `return` are followed by the next ones. -/
theorem runIn_statementsAfter_append {execute : Ast.Stmt → Eval Completion} {last : Completion}
    {before : List Ast.Stmt} {value : Value}
    (hbefore : runIn m (statementsAfter last execute before) = (.ok (.normal value), m₁))
    (after : List Ast.Stmt) :
    runIn m (statementsAfter last execute (before ++ after)) =
      runIn m₁ (statementsAfter (.normal value) execute after) := by
  induction before generalizing last m with
  | nil =>
    cases hbefore
    rfl
  | cons s before ih =>
    rw [List.cons_append, statementsAfter]
    rw [statementsAfter] at hbefore
    match hs : runIn m (execute s) with
    | (.ok (.normal v), m') =>
      rw [runIn_bind_ok hs] at hbefore ⊢
      exact ih hbefore
    | (.ok (.returning v), m') =>
      rw [runIn_bind_ok hs] at hbefore
      cases hbefore
    | (.error fault, m') =>
      rw [runIn_bind_error hs] at hbefore
      cases hbefore

/-- Statements end at the first one that fails. -/
theorem runIn_statements_error {execute : Ast.Stmt → Eval Completion} {before : List Ast.Stmt}
    {value : Value} {s : Ast.Stmt} {fault : Fault}
    (hbefore : runIn m (statements execute before) = (.ok (.normal value), m₁))
    (hs : runIn m₁ (execute s) = (.error fault, m₂)) (after : List Ast.Stmt) :
    runIn m (statements execute (before ++ s :: after)) = (.error fault, m₂) := by
  rw [statements, runIn_statementsAfter_append hbefore, statementsAfter]
  exact runIn_bind_error hs _

/-- Statements of which none fails end with a value. -/
theorem runIn_statementsAfter_ok {execute : Ast.Stmt → Eval Completion} (ss : List Ast.Stmt)
    (last : Completion)
    (h : ∀ before s after value m', ss = before ++ s :: after →
      runIn m (statementsAfter last execute before) = (.ok (.normal value), m') →
      ∃ c m'', runIn m' (execute s) = (.ok c, m'')) (hlast : ∃ value, last = .normal value) :
    ∃ c m', runIn m (statementsAfter last execute ss) = (.ok c, m') := by
  induction ss generalizing last m with
  | nil => exact ⟨last, m, rfl⟩
  | cons s ss ih =>
    obtain ⟨value, rfl⟩ := hlast
    obtain ⟨c, m', hs⟩ := h [] s ss value m rfl rfl
    rw [statementsAfter, runIn_bind_ok hs]
    cases c with
    | returning v => exact ⟨.returning v, m', rfl⟩
    | normal v =>
      refine ih (.normal v) (fun before s' after value' m'' hss hbefore => ?_) ⟨v, rfl⟩
      refine h (s :: before) s' after value' m'' (congrArg (s :: ·) hss) ?_
      rw [statementsAfter, runIn_bind_ok hs]
      exact hbefore

end Lists

/-- A fault that is placed, if it is an error without a line. -/
def placedFault (line : Option Int) : Fault → Fault
  | .error e => .error (e.placeAt line)
  | fault => fault

section Begun

variable {α : Type} {table : BuiltinTable} {depth : Nat} {m m₁ m₂ : Machine} {fault : Fault}

/-- A computation whose errors are placed fails as the computation does, apart from the place. -/
theorem runIn_placedAt_error {action : Eval α} (h : runIn m action = (.error fault, m₁))
    (line : Option Int) :
    runIn m (placedAt line action) = (.error (placedFault line fault), m₁) := by
  rw [runIn_placedAt, h]
  cases fault <;> rfl

/-- A computation that gives a value gives it also where errors are placed. -/
theorem runIn_placedAt_ok {action : Eval α} {a : α} (h : runIn m action = (.ok a, m₁))
    (line : Option Int) : runIn m (placedAt line action) = (.ok a, m₁) := by
  rw [runIn_placedAt, h]
  rfl

/-- A statement that is a task fails if executing it fails. -/
theorem run_stmt_error {frame : FrameId} {s : Ast.Stmt}
    (h : runIn m ((Task.stmt frame s).run table depth) = (.error fault, m₁)) :
    runIn m (stmt table depth frame s) = (.error fault, m₁) := by
  rw [Task.run, runIn_bind] at h
  match hs : runIn m (stmt table depth frame s) with
  | (.ok c, m') =>
    rw [hs] at h
    cases h
  | (.error fault', m') =>
    rw [hs] at h
    cases h
    rfl

/-- A condition that fails ends its `if`. -/
theorem runIn_branch_error {evaluate : Ast.Expr → Eval Value} {condition : Ast.Expr}
    (h : runIn m (evaluate condition) = (.error fault, m₁)) (execute : Ast.Stmt → Eval Completion)
    (consequence : Ast.Block) (alternative : Option Ast.Block) :
    runIn m (branch evaluate execute condition consequence alternative) = (.error fault, m₁) :=
  runIn_bind_error h _

/-- After its condition an `if` goes on with the statements of the block that is selected. -/
theorem runIn_branch_selects {evaluate : Ast.Expr → Eval Value} {condition : Ast.Expr}
    {value : Value} {consequence body : Ast.Block} {alternative : Option Ast.Block}
    (hcondition : runIn m (evaluate condition) = (.ok value, m₁))
    (hselects : Selects value consequence alternative body)
    (execute : Ast.Stmt → Eval Completion) :
    runIn m (branch evaluate execute condition consequence alternative) =
      runIn m₁ (statements execute body.statements) := by
  refine (runIn_bind_ok hcondition _).trans ?_
  unfold Selects at hselects
  split at hselects
  · next htrue => rw [if_pos htrue, hselects]
  · next hfalse => rw [if_neg hfalse, hselects]

/-- An `if` that is a task fails if its branch fails. -/
theorem fails_of_isCond {t : Task} {frame : FrameId} {condition : Ast.Expr}
    {consequence : Ast.Block} {alternative : Option Ast.Block}
    (hcond : t.IsCond frame condition consequence alternative)
    (h : runIn m (branch (expr table depth frame) (stmt table depth frame) condition consequence
      alternative) = (.error fault, m₁)) :
    runIn m (t.run table (depth + 1)) = (.error (placedFault t.line fault), m₁) := by
  cases hcond with
  | expr =>
    rw [Task.run, expr.eq_def]
    exact runIn_placedAt_error (runIn_bind_error h _) _
  | stmt =>
    rw [Task.run, stmt.eq_def]
    exact runIn_bind_error (runIn_placedAt_error h _) _

/-- A closure that is applied to as many arguments as it has parameters executes its body in a frame
of its own. -/
theorem runIn_body {captured frame : FrameId} {params : List Ident} {args : List Value}
    (henter : runIn m (enter captured params args) = (.ok frame, m₁)) (f : FrameId → Eval α) :
    runIn m (do
      let frame ← enclose captured
      bindParams frame params args
      f frame) = runIn m₁ (f frame) := by
  rw [← runIn_bind_ok henter f, enter, bind_assoc]
  simp only [bind_assoc, pure_bind]

/-- A list of expressions fails when one of them does. -/
theorem TurnOfExpr.fails {frame : FrameId} {es : List Ast.Expr} {e : Ast.Expr}
    (hturn : TurnOfExpr table depth frame es m e m₁)
    (h : runIn m₁ (expr table depth frame e) = (.error fault, m₂)) :
    runIn m (es.mapM (expr table depth frame)) = (.error fault, m₂) := by
  obtain ⟨before, after, values, rfl, hbefore⟩ := hturn
  exact runIn_mapM_error hbefore h after

/-- A list of statements fails when one of them does. -/
theorem TurnOfStmt.fails {frame : FrameId} {ss : List Ast.Stmt} {s : Ast.Stmt}
    (hturn : TurnOfStmt table depth frame ss m s m₁)
    (h : runIn m₁ ((Task.stmt frame s).run table depth) = (.error fault, m₂)) :
    runIn m (statements (stmt table depth frame) ss) = (.error fault, m₂) := by
  obtain ⟨before, after, value, rfl, hbefore⟩ := hturn
  exact runIn_statements_error hbefore (run_stmt_error h) after

/-- If what a task begins fails, then the task fails there and then, for the same fault placed. -/
theorem Begins.fails {t t₁ : Task} (hbegins : Begins table depth t m t₁ m₁)
    (h : runIn m₁ (t₁.run table depth) = (.error fault, m₂)) :
    runIn m (t.run table (depth + 1)) = (.error (placedFault t.line fault), m₂) := by
  cases hbegins with
  | operand | left | callee | array =>
    rw [Task.run, expr.eq_def]
    exact runIn_placedAt_error (runIn_bind_error h _) _
  | right op r line hleft =>
    rw [Task.run, expr.eq_def]
    refine runIn_placedAt_error ?_ _
    exact (runIn_bind_ok hleft _).trans (runIn_bind_error h _)
  | argument line hcallee hturn =>
    rw [Task.run, expr.eq_def]
    refine runIn_placedAt_error ?_ _
    exact (runIn_bind_ok hcallee _).trans (runIn_bind_error (hturn.fails h) _)
  | call line hcallee hargs =>
    rw [Task.run, expr.eq_def]
    refine runIn_placedAt_error ?_ _
    exact (runIn_bind_ok hcallee _).trans ((runIn_bind_ok hargs _).trans h)
  | element line hturn =>
    rw [Task.run, expr.eq_def]
    exact runIn_placedAt_error (runIn_bind_error (hturn.fails h) _) _
  | index index line harray =>
    rw [Task.run, expr.eq_def]
    refine runIn_placedAt_error ?_ _
    exact (runIn_bind_ok harray _).trans (runIn_bind_error h _)
  | condition _ hcond => exact fails_of_isCond hcond (runIn_branch_error h _ _ _)
  | branch hcond hcondition hselects hturn =>
    exact fails_of_isCond hcond
      ((runIn_branch_selects hcondition hselects _).trans (hturn.fails h))
  | assigned | returned =>
    rw [Task.run, stmt.eq_def]
    exact runIn_bind_error (runIn_placedAt_error (runIn_bind_error h _) _) _
  | @standing _ frame e line hplain =>
    have hvalue : runIn m (do return Completion.normal (← expr table depth frame e)) =
        (.error fault, m₂) := runIn_bind_error h _
    rw [Task.run, stmt.eq_def]
    refine runIn_bind_error (runIn_placedAt_error ?_ _) _
    cases e with
    | cond condition consequence alternative line' =>
      exact absurd rfl (hplain condition consequence alternative line')
    | _ => exact hvalue
  | inBlock hturn =>
    rw [Task.run, stmt.eq_def]
    exact runIn_bind_error (runIn_placedAt_error (hturn.fails h) _) _
  | @body _ _ _ line params body captured frame args s hlength henter hturn =>
    rw [Task.run, apply.eq_def]
    refine runIn_placedAt_error ?_ _
    change runIn m (if args.length ≠ params.length then _ else _) = _
    rw [if_neg (not_not_intro hlength), runIn_body henter]
    exact runIn_bind_error (hturn.fails h) _
  | @mapped _ _ line before after values element function hcallable hbefore =>
    rw [Task.run, apply.eq_def]
    refine runIn_placedAt_error ?_ _
    refine (runIn_bind_ok hcallable _).trans ?_
    exact runIn_bind_error (runIn_mapM_error hbefore h after) _

end Begun

/-- Everything that the task begins in the state, with `depth` levels left, ends with a value. -/
def PartsEnd (table : BuiltinTable) (depth : Nat) (t : Task) (m : Machine) : Prop :=
  ∀ t₁ m₁, Begins table depth t m t₁ m₁ → ∃ v m₂, runIn m₁ (t₁.run table depth) = (.ok v, m₂)

/-- The errors that the computation ends in have no line yet, and their causes lie with applying a
function if that is what is done. -/
def OwnErrors {α : Type} (applying : Prop) (m : Machine) (action : Eval α) : Prop :=
  ∀ e m', runIn m action = (.error (.error e), m') →
    e.line = none ∧ (e.cause.OfCall ↔ applying)

section Own

variable {α β : Type} {applying : Prop} {m m₁ : Machine}

/-- A computation that gives a value has no errors. -/
theorem ownErrors_of_ok {action : Eval α} {a : α} (h : runIn m action = (.ok a, m₁)) :
    OwnErrors applying m action := by
  intro e m' he
  rw [h] at he
  cases he

/-- That a tree is malformed is no error of the program. -/
theorem ownErrors_illFormed (cause : IllFormed) :
    OwnErrors applying m (throw (.illFormed cause) : Eval α) := by
  intro e m' he
  cases he

/-- Running out of depth is no error of the program yet. -/
theorem ownErrors_exhausted : OwnErrors applying m (throw .exhausted : Eval α) := by
  intro e m' he
  cases he

/-- A failure has no line yet. -/
theorem ownErrors_fail {cause : EvalError.Cause} (h : cause.OfCall ↔ applying) :
    OwnErrors applying m (fail cause : Eval α) := by
  intro e m' he
  cases he
  exact ⟨rfl, h⟩

/-- The failure of an operation on values has no line yet. -/
theorem ownErrors_ofResult {result : Except EvalError.Cause α}
    (h : ∀ cause, result = .error cause → ¬cause.OfCall) :
    OwnErrors False m (ofResult result) := by
  cases result with
  | ok v => exact ownErrors_of_ok rfl
  | error cause => exact ownErrors_fail (iff_false_intro (h cause rfl))

/-- The errors of two computations one after the other are those of both. -/
theorem OwnErrors.bind {x : Eval α} {f : α → Eval β} (hx : OwnErrors applying m x)
    (hf : ∀ a m₁, runIn m x = (.ok a, m₁) → OwnErrors applying m₁ (f a)) :
    OwnErrors applying m (x >>= f) := by
  intro e m' he
  rw [runIn_bind] at he
  match hrun : runIn m x with
  | (.ok a, m₁) =>
    rw [hrun] at he
    exact hf a m₁ hrun e m' he
  | (.error fault, m₁) =>
    rw [hrun] at he
    cases he
    exact hx e m' hrun

/-- After a computation that gives a value, the errors are those of the next one. -/
theorem ownErrors_after {x : Eval α} {a : α} (hx : runIn m x = (.ok a, m₁)) {f : α → Eval β}
    (hf : OwnErrors applying m₁ (f a)) : OwnErrors applying m (x >>= f) := by
  refine (ownErrors_of_ok hx).bind fun b m₂ hb => ?_
  rw [hx] at hb
  cases hb
  exact hf

/-- An error without a line gets the line that it is placed on. -/
theorem OwnErrors.placed {action : Eval α} (h : OwnErrors applying m action) {line : Option Int}
    {e : EvalError} (he : runIn m (placedAt line action) = (.error (.error e), m₁)) :
    e.line = line ∧ (e.cause.OfCall ↔ applying) := by
  rw [runIn_placedAt] at he
  match hrun : runIn m action with
  | (.ok a, m') | (.error (.illFormed _), m') | (.error .exhausted, m') =>
    rw [hrun] at he
    cases he
  | (.error (.error e'), m') =>
    rw [hrun] at he
    cases he
    obtain ⟨hline, hcause⟩ := h e' m' hrun
    refine ⟨?_, hcause⟩
    rw [EvalError.placeAt, hline]
    rfl

end Own

section Parts

variable {table : BuiltinTable} {depth : Nat} {m m₁ : Machine} {frame : FrameId}

/-- A statement whose execution as a task gives a value ends. -/
theorem stmt_ok_of_run {s : Ast.Stmt} {v : Value}
    (h : runIn m ((Task.stmt frame s).run table depth) = (.ok v, m₁)) :
    ∃ c, runIn m (stmt table depth frame s) = (.ok c, m₁) := by
  rw [Task.run, runIn_bind] at h
  match hs : runIn m (stmt table depth frame s) with
  | (.ok c, m') =>
    rw [hs] at h
    cases h
    exact ⟨c, rfl⟩
  | (.error fault', m') =>
    rw [hs] at h
    cases h

/-- A list of expressions that all end with values, each in its turn. -/
theorem exprs_ok {es : List Ast.Expr}
    (h : ∀ e m', TurnOfExpr table depth frame es m e m' →
      ∃ v m'', runIn m' (expr table depth frame e) = (.ok v, m'')) :
    ∃ values m', runIn m (es.mapM (expr table depth frame)) = (.ok values, m') :=
  runIn_mapM_ok es fun before e after values m' hes hbefore =>
    h e m' ⟨before, after, values, hes, hbefore⟩

/-- A list of statements that all end, each in its turn. -/
theorem stmts_ok {ss : List Ast.Stmt}
    (h : ∀ s m', TurnOfStmt table depth frame ss m s m' →
      ∃ v m'', runIn m' ((Task.stmt frame s).run table depth) = (.ok v, m'')) :
    ∃ c m', runIn m (statements (stmt table depth frame) ss) = (.ok c, m') := by
  refine runIn_statementsAfter_ok ss _ (fun before s after value m' hss hbefore => ?_) ⟨_, rfl⟩
  obtain ⟨v, m'', hv⟩ := h s m' ⟨before, after, value, hss, hbefore⟩
  obtain ⟨c, hc⟩ := stmt_ok_of_run hv
  exact ⟨c, m'', hc⟩

/-- An `if` whose parts all end ends. -/
theorem branch_ok {t : Task} {condition : Ast.Expr} {consequence : Ast.Block}
    {alternative : Option Ast.Block} (hcond : t.IsCond frame condition consequence alternative)
    (hparts : PartsEnd table depth t m) :
    ∃ c m', runIn m (branch (expr table depth frame) (stmt table depth frame) condition consequence
      alternative) = (.ok c, m') := by
  obtain ⟨value, m₁, hvalue⟩ := hparts _ _ (.condition m hcond)
  have hbody : ∀ body, Selects value consequence alternative body →
      ∃ c m', runIn m (branch (expr table depth frame) (stmt table depth frame) condition
        consequence alternative) = (.ok c, m') := by
    intro body hselects
    rw [runIn_branch_selects hvalue hselects]
    exact stmts_ok fun s m' hturn => hparts _ _ (.branch hcond hvalue hselects hturn)
  by_cases htrue : value.truthy = true
  · exact hbody consequence (by rw [Selects, if_pos htrue])
  · cases alternative with
    | some body => exact hbody body (by rw [Selects, if_neg htrue])
    | none =>
      refine ⟨.normal .null, m₁, (runIn_bind_ok hvalue _).trans ?_⟩
      rw [if_neg htrue]
      rfl

/-- Binding parameters does not fail. -/
theorem bindParams_ok (frame : FrameId) (params : List Ident) (args : List Value) :
    ∃ m', runIn m (bindParams frame params args) = (.ok (), m') := by
  induction params generalizing m args with
  | nil => exact ⟨m, rfl⟩
  | cons param params ih =>
    cases args with
    | nil => exact ⟨m, rfl⟩
    | cons arg args => exact ih args

/-- Entering a call does not fail. -/
theorem enter_ok (captured : FrameId) (params : List Ident) (args : List Value) :
    ∃ frame m', runIn m (enter captured params args) = (.ok frame, m') := by
  obtain ⟨m', hbind⟩ := bindParams_ok (m := { m with store := (m.store.enclose captured).2 })
    (m.store.enclose captured).1 params args
  refine ⟨(m.store.enclose captured).1, m', ?_⟩
  rw [enter, runIn_bind_ok (runIn_enclose m captured), runIn_bind_ok hbind]
  rfl

/-- Writing values fails by running out of depth only. -/
theorem ownErrors_puts {applying : Prop} (args : List Value) :
    OwnErrors applying m (args.forM fun arg => do write ((← displayed depth arg) ++ "\n")) := by
  induction args generalizing m with
  | nil => exact ownErrors_of_ok rfl
  | cons arg args ih =>
    change OwnErrors applying m ((do write ((← displayed depth arg) ++ "\n")) >>= fun _ => _)
    refine OwnErrors.bind ?_ fun _ _ _ => ih
    rw [displayed]
    split
    · exact ownErrors_of_ok rfl
    · exact ownErrors_exhausted

/-- Looking up a name fails if there is no such name. -/
theorem ownErrors_lookup (name : String) : OwnErrors False m (lookup table name frame) := by
  refine ownErrors_after (runIn_valueOf? m name frame) ?_
  cases m.store.get? name frame with
  | some value => exact ownErrors_of_ok rfl
  | none =>
    cases table.find? name with
    | some b => exact ownErrors_of_ok rfl
    | none => exact ownErrors_fail ⟨id, False.elim⟩

end Parts

section Raising

variable {table : BuiltinTable} {depth : Nat} {m m' : Machine} {e : EvalError}

/-- An expression that fails although its parts all end with values fails on its own line, and not
for a cause of calls. -/
theorem expr_raises {frame : FrameId} {x : Ast.Expr}
    (hparts : PartsEnd table depth (.expr frame x) m)
    (hrun : runIn m (expr table (depth + 1) frame x) = (.error (.error e), m')) :
    e.line = some x.line ∧ (e.cause.OfCall ↔ False) := by
  rw [expr.eq_def] at hrun
  refine OwnErrors.placed ?_ hrun
  cases x with
  | ident name line => exact ownErrors_lookup name
  | int value line | bool value line | function params body line => exact ownErrors_of_ok rfl
  | unary op operand line =>
    obtain ⟨v, m₁, hv⟩ := hparts _ _ (.operand ..)
    exact ownErrors_after hv (ownErrors_ofResult fun _ => Value.not_ofCall_unary)
  | binary op left right line =>
    obtain ⟨v, m₁, hv⟩ := hparts _ _ (.left ..)
    obtain ⟨w, m₂, hw⟩ := hparts _ _ (.right op right line hv)
    refine ownErrors_after hv (ownErrors_after hw ?_)
    exact ownErrors_ofResult fun _ => Value.not_ofCall_binary
  | call callee args line =>
    obtain ⟨function, m₁, hcallee⟩ := hparts _ _ (.callee ..)
    obtain ⟨values, m₂, hargs⟩ := exprs_ok fun _ _ hturn =>
      hparts _ _ (.argument line hcallee hturn)
    obtain ⟨v, m₃, hv⟩ := hparts _ _ (.call line hcallee hargs)
    exact ownErrors_after hcallee (ownErrors_after hargs (ownErrors_of_ok hv))
  | array elements line =>
    obtain ⟨values, m₁, hvalues⟩ := exprs_ok fun _ _ hturn => hparts _ _ (.element line hturn)
    exact ownErrors_after hvalues (ownErrors_of_ok rfl)
  | index array index line =>
    obtain ⟨v, m₁, hv⟩ := hparts _ _ (.array ..)
    obtain ⟨w, m₂, hw⟩ := hparts _ _ (.index index line hv)
    refine ownErrors_after hv (ownErrors_after hw ?_)
    exact ownErrors_ofResult fun _ => Value.not_ofCall_element
  | cond condition consequence alternative line =>
    obtain ⟨c, m₁, hc⟩ := branch_ok (.expr ..) hparts
    refine ownErrors_after hc ?_
    cases c with
    | normal value => exact ownErrors_of_ok rfl
    | returning value => exact ownErrors_fail ⟨id, False.elim⟩
  | misplaced statement => exact ownErrors_illFormed _
  | foreign => exact ownErrors_illFormed _

/-- A statement whose parts all end with values does not fail with an error. -/
theorem stmt_raises {frame : FrameId} {s : Ast.Stmt}
    (hparts : PartsEnd table depth (.stmt frame s) m)
    (hrun : runIn m (stmt table (depth + 1) frame s) = (.error (.error e), m')) :
    e.line = some s.line ∧ (e.cause.OfCall ↔ False) := by
  rw [stmt.eq_def] at hrun
  refine OwnErrors.placed ?_ hrun
  cases s with
  | var target value line =>
    obtain ⟨v, m₁, hv⟩ := hparts _ _ (.assigned ..)
    exact ownErrors_after hv (ownErrors_of_ok rfl)
  | ret value line =>
    obtain ⟨v, m₁, hv⟩ := hparts _ _ (.returned ..)
    exact ownErrors_after hv (ownErrors_of_ok rfl)
  | expr value line =>
    have hplain : (∀ condition consequence alternative line',
        value ≠ .cond condition consequence alternative line') →
        OwnErrors False m (do return Completion.normal (← expr table depth frame value)) := by
      intro hne
      obtain ⟨v, m₁, hv⟩ := hparts _ _ (.standing m frame line hne)
      exact ownErrors_after hv (ownErrors_of_ok rfl)
    cases value with
    | cond condition consequence alternative l =>
      obtain ⟨c, m₁, hc⟩ := branch_ok (.stmt ..) hparts
      exact ownErrors_of_ok hc
    | _ => exact hplain nofun
  | block body =>
    obtain ⟨c, m₁, hc⟩ := stmts_ok fun _ _ hturn => hparts _ _ (.inBlock hturn)
    exact ownErrors_of_ok hc
  | misplaced expression => exact ownErrors_illFormed _
  | program statements => exact ownErrors_illFormed _

/-- Applying a builtin fails by itself for a cause of calls only. -/
theorem ownErrors_applyBuiltin {line : Option Int} (b : Builtin) (args : List Value)
    (hparts : PartsEnd table depth (.apply line (.builtin b) args) m) :
    OwnErrors True m (applyBuiltin depth (apply table depth none) b args) := by
  cases b with
  | len =>
    match args with
    | [target] =>
      cases target with
      | array elements => exact ownErrors_of_ok rfl
      | _ => exact ownErrors_fail (iff_true_intro trivial)
    | [] | _ :: _ :: _ => exact ownErrors_fail (iff_true_intro trivial)
  | map =>
    match args with
    | [target, function] =>
      cases target with
      | array elements =>
        have hcallable : ∀ f : Value, runIn m (expectCallable "map" f) = (.ok f, m) →
            f = function → OwnErrors True m
              (applyBuiltin depth (apply table depth none) .map [.array elements, function]) := by
          rintro f hf rfl
          obtain ⟨values, m₁, hvalues⟩ := runIn_mapM_ok (m := m)
            (f := fun element => apply table depth none f [element]) elements
            fun before x after values m' heq hbefore => by
              subst heq
              exact hparts _ _ (.mapped line hf hbefore)
          exact ownErrors_after hf (ownErrors_after hvalues (ownErrors_of_ok rfl))
        cases function with
        | closure params body captured => exact hcallable _ rfl rfl
        | builtin b => exact hcallable _ rfl rfl
        | _ => exact ownErrors_fail (iff_true_intro trivial)
      | _ => exact ownErrors_fail (iff_true_intro trivial)
    | [] | [_] | _ :: _ :: _ :: _ => exact ownErrors_fail (iff_true_intro trivial)
  | puts => exact (ownErrors_puts args).bind fun _ _ _ => ownErrors_of_ok rfl
  | argCount name => exact ownErrors_of_ok rfl

/-- Applying a function fails by itself on the line of the application, for a cause of calls. -/
theorem apply_raises {line : Option Int} {function : Value} {args : List Value}
    (hparts : PartsEnd table depth (.apply line function args) m)
    (hrun : runIn m (apply table (depth + 1) line function args) = (.error (.error e), m')) :
    e.line = line ∧ (e.cause.OfCall ↔ True) := by
  rw [apply.eq_def] at hrun
  refine OwnErrors.placed ?_ hrun
  cases function with
  | closure params body captured =>
    change OwnErrors True m (if args.length ≠ params.length then _ else _)
    by_cases hlength : args.length = params.length
    · obtain ⟨frame, m₁, henter⟩ := enter_ok (m := m) captured params args
      obtain ⟨c, m₂, hc⟩ := stmts_ok fun _ _ hturn => hparts _ _ (.body line hlength henter hturn)
      rw [if_neg (not_not_intro hlength)]
      exact ownErrors_of_ok ((runIn_body henter _).trans (runIn_bind_ok hc _))
    · rw [if_pos hlength]
      exact ownErrors_fail (iff_true_intro trivial)
  | builtin b => exact ownErrors_applyBuiltin b args hparts
  | _ => exact ownErrors_fail (iff_true_intro trivial)

/-- A task that fails although all that it has begun has ended with a value fails on its own line,
and for a cause of calls if it is to apply a function. -/
theorem raises_own {t : Task} (hparts : PartsEnd table depth t m)
    (hrun : runIn m (t.run table (depth + 1)) = (.error (.error e), m')) :
    e.line = t.line ∧ (e.cause.OfCall ↔ t.IsApply) := by
  cases t with
  | expr frame x => exact expr_raises hparts hrun
  | stmt frame s => exact stmt_raises hparts (run_stmt_error hrun)
  | apply line function args => exact apply_raises hparts hrun

end Raising

end Eval

end EtherLang
