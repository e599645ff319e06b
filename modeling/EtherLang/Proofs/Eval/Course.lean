import EtherLang.Proofs.Eval.Running

/-!
# The course of an evaluation

Evaluation does one task at a time: it evaluates an expression, executes a statement or applies a
function. To do so it begins tasks one level further down, each in the state that those before it
have left. What is begun directly or through other tasks are the points that a run passes through:
whatever a running program binds, passes or returns, it does at the begin or the end of one of them.
-/

namespace EtherLang

/-- What evaluation has to do at one level. -/
inductive Task where
  | expr (frame : FrameId) (e : Ast.Expr)
  | stmt (frame : FrameId) (s : Ast.Stmt)
  | apply (line : Option Int) (function : Value) (args : List Value)

namespace Task

/-- Does a task with `depth` levels left; a statement gives the value that it ends with. -/
def run (table : BuiltinTable) (depth : Nat) : Task → Eval Value
  | .expr frame e => Eval.expr table depth frame e
  | .stmt frame s => do return (← Eval.stmt table depth frame s).value
  | .apply line function args => Eval.apply table depth line function args

/-- The task is an `if`, for its value or as a statement. -/
inductive IsCond : Task → FrameId → Ast.Expr → Ast.Block → Option Ast.Block → Prop
  | expr (frame : FrameId) (condition : Ast.Expr) (consequence : Ast.Block)
      (alternative : Option Ast.Block) (line : Int) :
    IsCond (.expr frame (.cond condition consequence alternative line)) frame condition consequence
      alternative
  | stmt (frame : FrameId) (condition : Ast.Expr) (consequence : Ast.Block)
      (alternative : Option Ast.Block) (line line' : Int) :
    IsCond (.stmt frame (.expr (.cond condition consequence alternative line) line')) frame
      condition consequence alternative

end Task

/-- The block that an `if` goes on with when its condition has this value. -/
def Selects (condition : Value) (consequence : Ast.Block) (alternative : Option Ast.Block)
    (body : Ast.Block) : Prop :=
  if condition.truthy then body = consequence else alternative = some body

namespace Eval

variable (table : BuiltinTable) (depth : Nat)

/-- From the first state the expressions of a list are evaluated up to this one, whose turn it is in
the second state. -/
def TurnOfExpr (frame : FrameId) (es : List Ast.Expr) (m : Machine) (e : Ast.Expr) (m' : Machine) :
    Prop :=
  ∃ before after values, es = before ++ e :: after ∧
    runIn m (before.mapM (expr table depth frame)) = (.ok values, m')

/-- From the first state the statements of a list are executed up to this one, whose turn it is in
the second state. -/
def TurnOfStmt (frame : FrameId) (ss : List Ast.Stmt) (m : Machine) (s : Ast.Stmt) (m' : Machine) :
    Prop :=
  ∃ before after value, ss = before ++ s :: after ∧
    runIn m (statements (stmt table depth frame) before) = (.ok (.normal value), m')

/-- Makes a frame for a call and binds the parameters in it. -/
def enter (captured : FrameId) (params : List Ident) (args : List Value) : Eval FrameId := do
  let frame ← enclose captured
  bindParams frame params args
  return frame

/-- With `depth + 1` levels left, the first task in the first state begins the second task in the
second state. -/
inductive Begins : Task → Machine → Task → Machine → Prop
  | operand (m : Machine) (frame : FrameId) (op : Spelled UnaryOp) (e : Ast.Expr) (line : Int) :
    Begins (.expr frame (.unary op e line)) m (.expr frame e) m
  | left (m : Machine) (frame : FrameId) (op : Spelled BinaryOp) (l r : Ast.Expr) (line : Int) :
    Begins (.expr frame (.binary op l r line)) m (.expr frame l) m
  | right {m m' : Machine} {frame : FrameId} (op : Spelled BinaryOp) {l : Ast.Expr} (r : Ast.Expr)
      (line : Int) {value : Value} :
    runIn m (expr table depth frame l) = (.ok value, m') →
    Begins (.expr frame (.binary op l r line)) m (.expr frame r) m'
  | callee (m : Machine) (frame : FrameId) (callee : Ast.Expr) (args : List Ast.Expr)
      (line : Int) :
    Begins (.expr frame (.call callee args line)) m (.expr frame callee) m
  | argument {m m₁ m₂ : Machine} {frame : FrameId} {callee : Ast.Expr} {args : List Ast.Expr}
      {e : Ast.Expr} (line : Int) {function : Value} :
    runIn m (expr table depth frame callee) = (.ok function, m₁) →
    TurnOfExpr table depth frame args m₁ e m₂ →
    Begins (.expr frame (.call callee args line)) m (.expr frame e) m₂
  | call {m m₁ m₂ : Machine} {frame : FrameId} {callee : Ast.Expr} {args : List Ast.Expr}
      (line : Int) {function : Value} {values : List Value} :
    runIn m (expr table depth frame callee) = (.ok function, m₁) →
    runIn m₁ (args.mapM (expr table depth frame)) = (.ok values, m₂) →
    Begins (.expr frame (.call callee args line)) m (.apply (some line) function values) m₂
  | element {m m' : Machine} {frame : FrameId} {elements : List Ast.Expr} {e : Ast.Expr}
      (line : Int) :
    TurnOfExpr table depth frame elements m e m' →
    Begins (.expr frame (.array elements line)) m (.expr frame e) m'
  | array (m : Machine) (frame : FrameId) (array index : Ast.Expr) (line : Int) :
    Begins (.expr frame (.index array index line)) m (.expr frame array) m
  | index {m m' : Machine} {frame : FrameId} {array : Ast.Expr} (index : Ast.Expr) (line : Int)
      {value : Value} :
    runIn m (expr table depth frame array) = (.ok value, m') →
    Begins (.expr frame (.index array index line)) m (.expr frame index) m'
  | condition (m : Machine) {t : Task} {frame : FrameId} {condition : Ast.Expr}
      {consequence : Ast.Block} {alternative : Option Ast.Block} :
    t.IsCond frame condition consequence alternative →
    Begins t m (.expr frame condition) m
  | branch {m m₁ m₂ : Machine} {t : Task} {frame : FrameId} {condition : Ast.Expr}
      {consequence body : Ast.Block} {alternative : Option Ast.Block} {value : Value}
      {s : Ast.Stmt} :
    t.IsCond frame condition consequence alternative →
    runIn m (expr table depth frame condition) = (.ok value, m₁) →
    Selects value consequence alternative body →
    TurnOfStmt table depth frame body.statements m₁ s m₂ →
    Begins t m (.stmt frame s) m₂
  | assigned (m : Machine) (frame : FrameId) (target : Ident) (e : Ast.Expr) (line : Int) :
    Begins (.stmt frame (.var target e line)) m (.expr frame e) m
  | returned (m : Machine) (frame : FrameId) (e : Ast.Expr) (line : Int) :
    Begins (.stmt frame (.ret e line)) m (.expr frame e) m
  /-- An `if` that stands as a statement is not evaluated for its value. -/
  | standing (m : Machine) (frame : FrameId) {e : Ast.Expr} (line : Int) :
    (∀ condition consequence alternative line', e ≠ .cond condition consequence alternative line') →
    Begins (.stmt frame (.expr e line)) m (.expr frame e) m
  | inBlock {m m' : Machine} {frame : FrameId} {body : Ast.Block} {s : Ast.Stmt} :
    TurnOfStmt table depth frame body.statements m s m' →
    Begins (.stmt frame (.block body)) m (.stmt frame s) m'
  | body {m m₁ m₂ : Machine} (line : Option Int) {params : List Ident} {body : Ast.Block}
      {captured frame : FrameId} {args : List Value} {s : Ast.Stmt} :
    args.length = params.length →
    runIn m (enter captured params args) = (.ok frame, m₁) →
    TurnOfStmt table depth frame body.statements m₁ s m₂ →
    Begins (.apply line (.closure params body captured) args) m (.stmt frame s) m₂
  | mapped {m m' : Machine} (line : Option Int) {before after values : List Value}
      {element function : Value} :
    runIn m (expectCallable "map" function) = (.ok function, m) →
    runIn m (before.mapM fun e => apply table depth none function [e]) = (.ok values, m') →
    Begins (.apply line (.builtin .map) [.array (before ++ element :: after), function]) m
      (.apply none function [element]) m'

/-- The second task, with the second number of levels left in the second state, is the first one or
is begun in the course of it. -/
inductive Passes : Nat → Task → Machine → Nat → Task → Machine → Prop
  | itself (depth : Nat) (t : Task) (m : Machine) : Passes depth t m depth t m
  | through {depth depth' : Nat} {t t₁ t' : Task} {m m₁ m' : Machine} :
    Begins table depth t m t₁ m₁ → Passes depth t₁ m₁ depth' t' m' →
    Passes (depth + 1) t m depth' t' m'

/-- In the course of running a program from a state the task is begun in the second state, with so
many levels left. -/
def InCourse (frame : FrameId) (p : Ast.Program) (m : Machine) (depth' : Nat) (t : Task)
    (m' : Machine) : Prop :=
  ∃ s m₁, TurnOfStmt table depth frame p.statements m s m₁ ∧
    Passes table depth (.stmt frame s) m₁ depth' t m'

end Eval

end EtherLang
