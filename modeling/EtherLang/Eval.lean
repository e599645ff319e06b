import EtherLang.Eval.Machine
import EtherLang.Eval.Primitive

/-!
# Evaluation

Expressions are evaluated from left to right in a frame; statements are executed one after the
other in a frame. Blocks share the frame around them and only a call makes a new one, inside the
frame that the closure was made in. A `return` ends the call it is in, or the program; it may come
from inside `if` statements but not from inside an `if` whose value is wanted.

An error gets the line of the innermost construct that was being evaluated when it arose. Each
construct, statement and call goes down one level; `depth` is the number of levels that are left.
-/

namespace EtherLang

/-- How a statement ends. -/
inductive Completion where
  /-- The next statement follows. -/
  | normal (value : Value)
  /-- A `return` is on its way out. -/
  | returning (value : Value)
  deriving Repr

/-- The value that a statement ends with. -/
def Completion.value : Completion → Value
  | normal value => value
  | returning value => value

namespace Eval

/-- The value of a name: a variable, or else a builtin. -/
def lookup (table : BuiltinTable) (name : String) (frame : FrameId) : Eval Value := do
  match ← valueOf? name frame with
  | some value => return value
  | none =>
    match table.find? name with
    | some builtin => return .builtin builtin
    | none => fail (.undefinedName name)

/-- Executes statements one after the other up to the first `return`; `last` is how the statement
before them ended. -/
def statementsAfter (last : Completion) (execute : Ast.Stmt → Eval Completion) :
    List Ast.Stmt → Eval Completion
  | [] => return last
  | first :: others => do
    match ← execute first with
    | .returning value => return .returning value
    | completion => statementsAfter completion execute others

/-- Executes statements one after the other. They end as the last one ends, and without any they
end with null. -/
def statements (execute : Ast.Stmt → Eval Completion) (list : List Ast.Stmt) : Eval Completion :=
  statementsAfter (.normal .null) execute list

/-- Executes the branch of an `if` that its condition selects. -/
def branch (evaluate : Ast.Expr → Eval Value) (execute : Ast.Stmt → Eval Completion)
    (condition : Ast.Expr) (consequence : Ast.Block) (alternative : Option Ast.Block) :
    Eval Completion := do
  if (← evaluate condition).truthy then
    statements execute consequence.statements
  else
    match alternative with
    | some block => statements execute block.statements
    | none => return .normal .null

/-- Binds parameters to arguments in a frame, from left to right. -/
def bindParams (frame : FrameId) : List Ident → List Value → Eval Unit
  | param :: params, arg :: args => do
    assign frame param.name arg
    bindParams frame params args
  | _, _ => return

/-- The argument of a builtin that has to be an array. -/
def expectArray (name : String) : Value → Eval (List Value)
  | .array elements => return elements
  | other => fail (.argumentKind name .array other.kind)

/-- The argument of a builtin that has to be a function. -/
def expectCallable (name : String) : Value → Eval Value
  | .closure params body captured => return .closure params body captured
  | .builtin b => return .builtin b
  | other => fail (.argumentKind name .function other.kind)

/-- Applies a builtin; `call` is how it calls functions and `depth` the number of levels that are
left. -/
def applyBuiltin (depth : Nat) (call : Value → List Value → Eval Value) (b : Builtin)
    (args : List Value) : Eval Value :=
  match b, args with
  | .len, [target] => do
    return .int (← expectArray "len" target).length
  | .len, args => fail (.builtinArity "len" 1 args.length)
  | .map, [target, function] => do
    let elements ← expectArray "map" target
    let function ← expectCallable "map" function
    return .array (← elements.mapM fun element => call function [element])
  | .map, args => fail (.builtinArity "map" 2 args.length)
  | .puts, args => do
    args.forM fun arg => do write ((← displayed depth arg) ++ "\n")
    return .null
  | .argCount _, args => return .int args.length

mutual

/-- Evaluates an expression. -/
def expr (table : BuiltinTable) (depth : Nat) (frame : FrameId) (e : Ast.Expr) : Eval Value :=
  match depth with
  | 0 => throw .exhausted
  | depth + 1 =>
    placedAt (some e.line) <|
      match e with
      | .int value _ => return .int value
      | .bool value _ => return .bool value
      | .ident name _ => lookup table name frame
      | .unary op operand _ => do
        let operand ← expr table depth frame operand
        ofResult (operand.unary op)
      | .binary op left right _ => do
        let left ← expr table depth frame left
        let right ← expr table depth frame right
        ofResult (Value.binary op left right)
      | .function params body line => closure params body line frame
      | .call callee args line => do
        let callee ← expr table depth frame callee
        let args ← args.mapM (expr table depth frame)
        apply table depth (some line) callee args
      | .array elements _ => do
        return .array (← elements.mapM (expr table depth frame))
      | .index array index _ => do
        let array ← expr table depth frame array
        let index ← expr table depth frame index
        ofResult (array.element index)
      | .cond condition consequence alternative _ => do
        match ← branch (expr table depth frame) (stmt table depth frame) condition consequence
            alternative with
        | .normal value => return value
        | .returning _ => fail .returnInValue
      | e => throw (.illFormed (.notAnExpression e.familyName))

/-- Executes a statement. -/
def stmt (table : BuiltinTable) (depth : Nat) (frame : FrameId) (s : Ast.Stmt) :
    Eval Completion :=
  match depth with
  | 0 => throw .exhausted
  | depth + 1 =>
    placedAt (some s.line) <|
      match s with
      | .var target value _ => do
        let value ← expr table depth frame value
        assign frame target.name value
        return .normal .null
      | .ret value _ => do
        return .returning (← expr table depth frame value)
      | .expr (.cond condition consequence alternative _) _ =>
        branch (expr table depth frame) (stmt table depth frame) condition consequence alternative
      | .expr value _ => do
        return .normal (← expr table depth frame value)
      | .block body => statements (stmt table depth frame) body.statements
      | s => throw (.illFormed (.notAStatement s.familyName))

/-- Applies a function to arguments. Errors without a line get the line of the call, if the call
has one. -/
def apply (table : BuiltinTable) (depth : Nat) (line : Option Int) (function : Value)
    (args : List Value) : Eval Value :=
  match depth with
  | 0 => throw .exhausted
  | depth + 1 =>
    placedAt line <|
      match function with
      | .closure params body captured => do
        if args.length ≠ params.length then
          fail (.wrongArity params.length args.length)
        else
          let frame ← enclose captured
          bindParams frame params args
          return (← statements (stmt table depth frame) body.statements).value
      | .builtin b => applyBuiltin depth (apply table depth none) b args
      | other => fail (.notAFunction other.kind)

end

/-- Evaluates a node in a frame. Running out of depth is an error of the program, on the line of
the node. -/
def node (table : BuiltinTable) (depth : Nat) (frame : FrameId) (n : Ast.Node) : Eval Value :=
  reportingExhaustion n.line <|
    match n with
    | .program p => do
      return (← statements (stmt table depth frame) p.statements).value
    | .stmt s => do
      return (← stmt table depth frame s).value
    | .expr e => expr table depth frame e

end Eval

end EtherLang
