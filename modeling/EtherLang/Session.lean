import EtherLang.Ast.Desugar
import EtherLang.Breakdown
import EtherLang.Eval
import EtherLang.Event

/-!
# Sessions

A session evaluates source texts one after the other. The variables of the global frame stay from
one text to the next, also when a text fails half way. Before each text the recursion limit is
brought to the one asked for, or at least to the usual one; it bounds the levels that reading,
desugaring, evaluation and the display of a value each may go down.
-/

namespace EtherLang

/-- The recursion limit before any program has been run. -/
def initialLimit : Nat := 1000

/-- The recursion limit that running a program asks for by itself. -/
def usualLimit : Nat := 10000

/-- The greatest recursion limit that can be set. -/
def greatestLimit : Nat := 0x7fffffff

/-- The levels that a recursion limit allows. Each level takes two of the limit. -/
def levelsOf (limit : Nat) : Nat :=
  limit / 2

/-- What lasts from one source text to the next. -/
structure Session where
  builtins : BuiltinTable
  /-- The recursion limit that the settings ask for. -/
  requestedLimit : Option Nat
  /-- The recursion limit now. -/
  limit : Nat
  store : Store
  /-- The frame of the global variables. -/
  global : FrameId
  deriving Repr

/-- What the evaluation of one source text gave. -/
structure Report where
  outcome : Except Failure Value
  /-- What the program wrote. -/
  output : String
  events : List Event

namespace Session

/-- A session in which nothing has happened yet. -/
def start (builtins : BuiltinTable) (requestedLimit : Option Nat) : Session :=
  let (global, store) := Store.empty.newFrame
  { builtins, requestedLimit, limit := initialLimit, store, global }

/-- The limit for the next run, and the record of setting it. A limit that is asked for is always
set; without one the limit is only ever raised. -/
def nextLimit (s : Session) : Nat × List Event :=
  match s.requestedLimit with
  | some limit => (limit, [.limitSet limit])
  | none => if s.limit < usualLimit then (usualLimit, [.limitSet usualLimit]) else (s.limit, [])

/-- Evaluates a source text. -/
def evaluate (s : Session) (source : String) : Report × Session :=
  let (limit, limitEvents) := s.nextLimit
  if greatestLimit < limit then (⟨.error (.broken .limitTooGreat), "", limitEvents⟩, s)
  else
    let s := { s with limit }
    match Surface.parse (.atMost (levelsOf limit)) source with
    | .error failure => (⟨.error failure.toFailure, "", limitEvents⟩, s)
    | .ok tree =>
      let parseEvents := limitEvents ++ [.parsed tree.length]
      match desugar (.atMost (levelsOf limit)) tree with
      | .error e => (⟨.error (.parse e), "", parseEvents⟩, s)
      | .ok program =>
        let (result, m) := Eval.runIn ⟨s.store, "", []⟩
          (Eval.node s.builtins (levelsOf limit) s.global (.program program))
        let events := parseEvents ++ [.lowered program, .evaluating program.statements.length]
          ++ m.closures.reverse.map fun (line, captured) => .closure line captured
        (⟨result.mapError Fault.toFailure, m.output, events⟩, { s with store := m.store })

/-- What evaluating a text gives apart from its events, said by how the text is read as a whole. -/
theorem evaluate_eq (s : Session) (source : String) :
    ((s.evaluate source).1.outcome, (s.evaluate source).1.output, (s.evaluate source).2) =
      if greatestLimit < s.nextLimit.1 then (.error (.broken .limitTooGreat), "", s)
      else
        match parse (.atMost (levelsOf s.nextLimit.1)) source with
        | .error failure => (.error failure.toFailure, "", { s with limit := s.nextLimit.1 })
        | .ok program =>
          let (result, m) := Eval.runIn ⟨s.store, "", []⟩
            (Eval.node s.builtins (levelsOf s.nextLimit.1) s.global (.program program))
          (result.mapError Fault.toFailure, m.output,
            { s with limit := s.nextLimit.1, store := m.store }) := by
  rw [evaluate, parse]
  obtain ⟨limit, limitEvents⟩ := s.nextLimit
  dsimp only
  by_cases hlimit : greatestLimit < limit
  · rw [if_pos hlimit, if_pos hlimit]
  · rw [if_neg hlimit, if_neg hlimit]
    cases Surface.parse (.atMost (levelsOf limit)) source with
    | error failure => rfl
    | ok tree =>
      dsimp only [bind, Except.bind]
      cases desugar (.atMost (levelsOf limit)) tree with
      | error e => rfl
      | ok program => rfl

/-- The session with a new frame for the global variables, in which there are none. The frames made
before stay where they are, and nothing leads to them any more. -/
def reset (s : Session) : Session :=
  let (global, store) := s.store.newFrame
  { s with store, global }

/-- The frame of the global variables as it is now. -/
def globalFrame (s : Session) : Frame :=
  (s.store.frame? s.global).getD ⟨none, []⟩

end Session

end EtherLang
