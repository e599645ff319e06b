import EtherLang.EvalError
import EtherLang.Store

/-!
# The state of a running program

Evaluation changes the store of frames, writes output and leaves a record of the closures it made.
All of this is kept when evaluation fails.
-/

namespace EtherLang

/-- What a program in the course of its running has done so far. -/
structure Machine where
  store : Store
  /-- The text written by the program. -/
  output : String
  /-- The closures made, each with its line and with its frame as it was then, the last one
  first. -/
  closures : List (Int × Frame)
  deriving Repr

/-- The state before anything has run. -/
def Machine.initial : Machine :=
  ⟨Store.empty, "", []⟩

/-- Computations that may fail and that change the state, which a failure does not undo. -/
abbrev Eval := ExceptT Fault (StateM Machine)

namespace Eval

/-- Runs a computation in a state. -/
def runIn {α : Type} (m : Machine) (action : Eval α) : Except Fault α × Machine :=
  let (result, m) := (ExceptT.run action).run m
  (result, m)

/-- Fails for a cause, with no line yet. -/
def fail {α : Type} (cause : EvalError.Cause) : Eval α :=
  throw (.error ⟨cause, none⟩)

/-- Takes over the result of an operation on values. -/
def ofResult {α : Type} : Except EvalError.Cause α → Eval α
  | .ok value => pure value
  | .error cause => fail cause

/-- Places the errors of a computation that have no line yet. -/
def placedAt {α : Type} (line : Option Int) (action : Eval α) : Eval α :=
  tryCatch action fun
    | .error e => throw (.error (e.placeAt line))
    | fault => throw fault

/-- Turns running out of depth into an error of the program on the given line. -/
def reportingExhaustion {α : Type} (line : Int) (action : Eval α) : Eval α :=
  tryCatch action fun
    | .exhausted => throw (.error ⟨.recursionLimit, some line⟩)
    | fault => throw fault

/-- The display form of a value, which has to be nested no deeper than `levels` levels. -/
def displayed (levels : Nat) (value : Value) : Eval String :=
  if value.nesting ≤ levels then return value.display else throw .exhausted

/-- Writes text. -/
def write (text : String) : Eval Unit :=
  modify fun m => { m with output := m.output ++ text }

/-- Makes a frame inside another one. -/
def enclose (parent : FrameId) : Eval FrameId :=
  modifyGet fun m =>
    let (id, store) := m.store.enclose parent
    (id, { m with store })

/-- Binds a name in a frame. -/
def assign (frame : FrameId) (name : String) (value : Value) : Eval Unit :=
  modify fun m => { m with store := m.store.set frame name value }

/-- The value that a name has in the frames from `frame` outward. -/
def valueOf? (name : String) (frame : FrameId) : Eval (Option Value) :=
  return (← get).store.get? name frame

/-- Makes a closure in a frame and puts it on record. -/
def closure (params : List Ident) (body : Ast.Block) (line : Int) (frame : FrameId) :
    Eval Value := do
  modify fun m =>
    { m with closures := (line, (m.store.frame? frame).getD ⟨none, []⟩) :: m.closures }
  return .closure params body frame

end Eval

end EtherLang
