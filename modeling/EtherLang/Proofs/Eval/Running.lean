import EtherLang.Eval

/-!
# Running computations

How the steps of evaluation run in a state. A computation ends with a result and a state, and a
failure ends it with the state that it has reached.
-/

namespace EtherLang.Eval

variable {α β : Type} (m : Machine)

/-- A value is returned without a change. -/
@[simp] theorem runIn_pure (a : α) : runIn m (pure a : Eval α) = (.ok a, m) :=
  rfl

/-- A fault is raised without a change. -/
@[simp] theorem runIn_throw (fault : Fault) :
    runIn m (throw fault : Eval α) = (.error fault, m) :=
  rfl

/-- An error is raised without a change. -/
@[simp] theorem runIn_fail (cause : EvalError.Cause) :
    runIn m (fail cause : Eval α) = (.error (.error ⟨cause, none⟩), m) :=
  rfl

/-- What a result and a state lead to, if the result is a value. -/
def continued (f : α → Eval β) : Except Fault α × Machine → Except Fault β × Machine
  | (.ok a, m) => runIn m (f a)
  | (.error fault, m) => (.error fault, m)

/-- The second of two computations runs in the state that the first leaves, if that succeeds. -/
theorem runIn_bind (x : Eval α) (f : α → Eval β) :
    runIn m (x >>= f) = continued f (runIn m x) := by
  match h : runIn m x with
  | (.ok a, m') =>
    have hx : x.run.run m = (.ok a, m') := h
    change (x >>= f).run.run m = _
    rw [ExceptT.run_bind, StateT.run_bind, hx]
    rfl
  | (.error fault, m') =>
    have hx : x.run.run m = (.error fault, m') := h
    change (x >>= f).run.run m = _
    rw [ExceptT.run_bind, StateT.run_bind, hx]
    rfl

/-- A handler runs in the state that the failure has reached. -/
theorem runIn_tryCatch (action : Eval α) (handler : Fault → Eval α) :
    runIn m (tryCatch action handler) =
      match runIn m action with
      | (.ok a, m') => (.ok a, m')
      | (.error fault, m') => runIn m' (handler fault) := by
  match h : runIn m action with
  | (.ok a, m') =>
    have hx : action.run.run m = (.ok a, m') := h
    change (tryCatch action handler).run.run m = _
    rw [ExceptT.run_tryCatch, StateT.run_bind, hx]
    rfl
  | (.error fault, m') =>
    have hx : action.run.run m = (.error fault, m') := h
    change (tryCatch action handler).run.run m = _
    rw [ExceptT.run_tryCatch, StateT.run_bind, hx]
    rfl

/-- What placing errors makes of a result. -/
def placed (line : Option Int) : Except Fault α → Except Fault α
  | .error (.error e) => .error (.error (e.placeAt line))
  | result => result

/-- Placing errors changes the result and leaves the state. -/
theorem runIn_placedAt (line : Option Int) (action : Eval α) :
    runIn m (placedAt line action) = (placed line (runIn m action).1, (runIn m action).2) := by
  rw [placedAt, runIn_tryCatch]
  match runIn m action with
  | (.ok a, m') => rfl
  | (.error (.error e), m') => rfl
  | (.error (.illFormed e), m') => rfl
  | (.error .exhausted, m') => rfl

/-- What reporting exhaustion makes of a result. -/
def reported (line : Int) : Except Fault α → Except Fault α
  | .error .exhausted => .error (.error ⟨.recursionLimit, some line⟩)
  | result => result

/-- Reporting exhaustion changes the result and leaves the state. -/
theorem runIn_reportingExhaustion (line : Int) (action : Eval α) :
    runIn m (reportingExhaustion line action) =
      (reported line (runIn m action).1, (runIn m action).2) := by
  rw [reportingExhaustion, runIn_tryCatch]
  match runIn m action with
  | (.ok a, m') => rfl
  | (.error (.error e), m') => rfl
  | (.error (.illFormed e), m') => rfl
  | (.error .exhausted, m') => rfl

/-- The result of an operation on values is taken over without a change. -/
theorem runIn_ofResult (result : Except EvalError.Cause α) :
    runIn m (ofResult result) = (result.mapError fun cause => .error ⟨cause, none⟩, m) := by
  cases result <;> rfl

/-- Assigning a variable changes the store. -/
@[simp] theorem runIn_assign (frame : FrameId) (name : String) (value : Value) :
    runIn m (assign frame name value) =
      (.ok (), { m with store := m.store.set frame name value }) :=
  rfl

/-- Making a frame gives its number. -/
@[simp] theorem runIn_enclose (parent : FrameId) :
    runIn m (enclose parent) =
      (.ok (m.store.enclose parent).1, { m with store := (m.store.enclose parent).2 }) :=
  rfl

/-- Writing text changes the output. -/
@[simp] theorem runIn_write (text : String) :
    runIn m (write text) = (.ok (), { m with output := m.output ++ text }) :=
  rfl

/-- Looking up a variable changes nothing. -/
@[simp] theorem runIn_valueOf? (name : String) (frame : FrameId) :
    runIn m (valueOf? name frame) = (.ok (m.store.get? name frame), m) :=
  rfl

/-- Making a closure puts it on record. -/
@[simp] theorem runIn_closure (params : List Ident) (body : Ast.Block) (line : Int)
    (frame : FrameId) :
    runIn m (closure params body line frame) =
      (.ok (.closure params body frame),
        { m with closures := (line, (m.store.frame? frame).getD ⟨none, []⟩) :: m.closures }) :=
  rfl

end EtherLang.Eval
