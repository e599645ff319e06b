import EtherLang.Proofs.Ast.Layout
import EtherLang.Proofs.Eval.Running
import EtherLang.Proofs.Surface.Recursion
import EtherLang.Session

/-!
# Evaluation without lines

Lines are stored in every node, in the closures that are made of nodes and in the errors, but
nothing that evaluation does depends on them. Evaluating a tree without its lines, in a state
without lines, ends with the value without lines or in a fault of the same cause, and leaves the
state without lines that the evaluation of the tree leaves.

Hence two texts with the same tokens, however they are laid out, are evaluated alike: each of them
like the one text that has no lines at all.
-/

namespace EtherLang

namespace Ast

/-- The members of a list lose their lines one by one. -/
theorem eraseLinesList_eq_map (es : List Expr) : eraseLinesList es = es.map Expr.eraseLines := by
  induction es with
  | nil => rfl
  | cons first others ih => rw [eraseLinesList, ih, List.map_cons]

/-- The statements of a list lose their lines one by one. -/
theorem eraseLinesStatements_eq_map (ss : List Stmt) :
    eraseLinesStatements ss = ss.map Stmt.eraseLines := by
  induction ss with
  | nil => rfl
  | cons first others ih => rw [eraseLinesStatements, ih, List.map_cons]

/-- The statements of a block without its lines. -/
theorem Block.statements_eraseLines (b : Block) :
    b.eraseLines.statements = b.statements.map Stmt.eraseLines := by
  obtain ⟨ss, line⟩ := b
  exact eraseLinesStatements_eq_map ss

mutual

/-- A node without its lines is of the family of the node. -/
theorem Expr.familyName_eraseLines (e : Expr) : e.eraseLines.familyName = e.familyName := by
  match e with
  | .ident .. | .int .. | .bool .. | .unary .. | .binary .. | .function .. | .call .. => rfl
  | .array .. | .index .. | .cond _ _ none _ | .cond _ _ (some _) _ | .foreign => rfl
  | .misplaced statement => exact statement.familyName_eraseLines
termination_by structural e

/-- A node without its lines is of the family of the node. -/
theorem Stmt.familyName_eraseLines (s : Stmt) : s.eraseLines.familyName = s.familyName := by
  match s with
  | .var .. | .ret .. | .expr .. | .block .. | .program .. => rfl
  | .misplaced expression => exact expression.familyName_eraseLines
termination_by structural s

end

end Ast

namespace Value

mutual

/-- A value without the lines in the bodies of its closures. -/
def eraseLines : Value → Value
  | null => null
  | int n => int n
  | bool b => bool b
  | array elements => array (eraseLinesList elements)
  | closure params body captured =>
    closure (params.map Ident.eraseLine) body.eraseLines captured
  | builtin b => builtin b

/-- Values without the lines in the bodies of their closures. -/
def eraseLinesList : List Value → List Value
  | [] => []
  | first :: others => first.eraseLines :: eraseLinesList others

end

/-- The members of a list lose their lines one by one. -/
theorem eraseLinesList_eq_map (values : List Value) :
    eraseLinesList values = values.map eraseLines := by
  induction values with
  | nil => rfl
  | cons first others ih => rw [eraseLinesList, ih, List.map_cons]

/-- A value without lines is of the same kind. -/
@[simp] theorem kind_eraseLines (v : Value) : v.eraseLines.kind = v.kind := by
  cases v <;> rfl

/-- A value without lines counts as true if the value does. -/
@[simp] theorem truthy_eraseLines (v : Value) : v.eraseLines.truthy = v.truthy := by
  cases v <;> rfl

mutual

/-- A value without lines is displayed as the value is. -/
@[simp] theorem display_eraseLines (v : Value) : v.eraseLines.display = v.display := by
  match v with
  | null | int _ | bool _ | builtin _ => rfl
  | array elements => rw [eraseLines, display, display, displayList_eraseLines elements]
  | closure params body captured =>
    rw [eraseLines, display, display, Ast.renderParams_eraseLine, body.render_eraseLines]
termination_by structural v

/-- Values without lines are displayed as the values are. -/
theorem displayList_eraseLines (vs : List Value) :
    displayList (eraseLinesList vs) = displayList vs := by
  match vs with
  | [] => rfl
  | [last] => exact display_eraseLines last
  | first :: second :: others =>
    change first.eraseLines.display ++ ", " ++ displayList (eraseLinesList (second :: others)) =
      first.display ++ ", " ++ displayList (second :: others)
    rw [display_eraseLines first, displayList_eraseLines (second :: others)]
termination_by structural vs

end

mutual

/-- A value without lines is nested as the value is. -/
@[simp] theorem nesting_eraseLines (v : Value) : v.eraseLines.nesting = v.nesting := by
  match v with
  | null | int _ | bool _ | builtin _ | closure _ _ _ => rfl
  | array elements => rw [eraseLines, nesting, nesting, nestingList_eraseLines elements]
termination_by structural v

/-- Values without lines are nested as the values are. -/
theorem nestingList_eraseLines (vs : List Value) :
    nestingList (eraseLinesList vs) = nestingList vs := by
  match vs with
  | [] => rfl
  | first :: others =>
    rw [eraseLinesList, nestingList, nestingList, nesting_eraseLines first,
      nestingList_eraseLines others]
termination_by structural vs

end

/-- Operators with one operand do not see lines. -/
theorem unary_eraseLines (op : Spelled UnaryOp) (v : Value) :
    unary op v.eraseLines = (unary op v).map eraseLines := by
  cases v <;> cases op with
  | known op => cases op <;> rfl
  | unknown symbol => rfl

/-- What integers make holds no lines. -/
theorem onIntegers_eraseLines (op : BinaryOp) (a b : Int) :
    (op.onIntegers a b).map eraseLines = op.onIntegers a b := by
  cases op with
  | div =>
    rw [BinaryOp.onIntegers]
    cases Integer.quotient? a b <;> rfl
  | _ => rfl

/-- Operators with two operands do not see lines. -/
theorem binary_eraseLines (op : Spelled BinaryOp) (v w : Value) :
    binary op v.eraseLines w.eraseLines = (binary op v w).map eraseLines := by
  by_cases hkind : v.kind = w.kind
  · cases v with
    | int a =>
      cases w with
      | int b =>
        cases op with
        | known op => exact (onIntegers_eraseLines op a b).symm
        | unknown symbol => rfl
      | _ => cases hkind
    | _ =>
      cases w <;> cases hkind
      cases op with
      | known op => cases op <;> rfl
      | unknown symbol => rfl
  · rw [binary.eq_def, binary.eq_def, kind_eraseLines, kind_eraseLines, if_pos hkind,
      if_pos hkind]
    rfl

/-- The elements of an array without lines are the elements without lines. -/
theorem element_eraseLines (v w : Value) :
    element v.eraseLines w.eraseLines = (element v w).map eraseLines := by
  cases v with
  | array elements =>
    cases w with
    | int i =>
      simp only [eraseLines, element, eraseLinesList_eq_map, List.length_map, List.getElem?_map]
      split
      · rfl
      · cases elements[i.toNat]? <;> rfl
    | _ => rfl
  | _ => rfl

end Value

namespace Frame

/-- A frame whose values have lost their lines. -/
def eraseLines (f : Frame) : Frame :=
  ⟨f.parent, f.bindings.map fun (name, value) => (name, value.eraseLines)⟩

/-- A frame without lines binds the names of the frame. -/
theorem get?_eraseLines (f : Frame) (name : String) :
    f.eraseLines.get? name = (f.get? name).map Value.eraseLines := by
  obtain ⟨parent, bindings⟩ := f
  change (bindings.map fun (name, value) => (name, value.eraseLines)).lookup name =
    (bindings.lookup name).map Value.eraseLines
  induction bindings with
  | nil => rfl
  | cons binding rest ih =>
    obtain ⟨other, value⟩ := binding
    rw [List.map_cons, List.lookup_cons, List.lookup_cons]
    split
    · rfl
    · exact ih

/-- A list of bindings without lines with one name bound anew. -/
theorem insert_eraseLines (name : String) (value : Value) (bindings : List (String × Value)) :
    (insert name value bindings).map (fun (n, v) => (n, v.eraseLines)) =
      insert name value.eraseLines (bindings.map fun (n, v) => (n, v.eraseLines)) := by
  induction bindings with
  | nil => rfl
  | cons binding rest ih =>
    obtain ⟨other, old⟩ := binding
    by_cases hother : other = name
    · simp [insert, hother]
    · simp [insert, hother, ih]

/-- Binding a name and losing the lines can change places. -/
theorem eraseLines_set (f : Frame) (name : String) (value : Value) :
    (f.set name value).eraseLines = f.eraseLines.set name value.eraseLines :=
  congrArg (Frame.mk f.parent) (insert_eraseLines name value f.bindings)

/-- Without their lines the values of a frame are displayed as they are. -/
theorem display_bindings_eraseLines (f : Frame) :
    f.eraseLines.bindings.map (fun (name, value) => (name, value.display)) =
      f.bindings.map fun (name, value) => (name, value.display) := by
  simp [eraseLines, Function.comp_def]

end Frame

namespace Store

/-- A store whose frames have lost their lines. -/
def eraseLines (s : Store) : Store :=
  ⟨s.frames.map Frame.eraseLines⟩

/-- The frames of a store without lines. -/
@[simp] theorem frame?_eraseLines (s : Store) (id : FrameId) :
    s.eraseLines.frame? id = (s.frame? id).map Frame.eraseLines := by
  simp [eraseLines, frame?]

/-- A new frame in a store without lines. -/
theorem enclose_eraseLines (s : Store) (parent : FrameId) :
    s.eraseLines.enclose parent = ((s.enclose parent).1, (s.enclose parent).2.eraseLines) := by
  simp [eraseLines, enclose, push, Frame.eraseLines]

/-- A name bound in a store without lines. -/
theorem set_eraseLines (s : Store) (id : FrameId) (name : String) (value : Value) :
    s.eraseLines.set id name value.eraseLines = (s.set id name value).eraseLines := by
  refine congrArg Store.mk (Array.ext_getElem? fun i => ?_)
  simp only [eraseLines, set, Array.getElem?_modify, Array.getElem?_map]
  split
  · cases s.frames[i]? with
    | none => rfl
    | some f => exact congrArg some (f.eraseLines_set name value).symm
  · rfl

/-- The value of a name in a store without lines. -/
theorem get?_eraseLines (s : Store) (name : String) (id : FrameId) :
    s.eraseLines.get? name id = (s.get? name id).map Value.eraseLines := by
  rw [get?, get?, frame?_eraseLines]
  cases hf : s.frame? id with
  | none => rfl
  | some f =>
    simp only [Option.map_some, Frame.get?_eraseLines]
    cases hv : f.get? name with
    | some value => rfl
    | none =>
      simp only [Option.map_none, Frame.eraseLines]
      cases hp : f.parent with
      | none => rfl
      | some parent =>
        dsimp only
        split
        · exact s.get?_eraseLines name parent
        · rfl
termination_by id

end Store

/-- A state without lines. -/
def Machine.eraseLines (m : Machine) : Machine :=
  ⟨m.store.eraseLines, m.output, m.closures.map fun (_, frame) => (0, frame.eraseLines)⟩

/-- How a statement ends, with a value without lines. -/
def Completion.eraseLines : Completion → Completion
  | .normal value => .normal value.eraseLines
  | .returning value => .returning value.eraseLines

/-- The value of an end without lines is the value without lines. -/
theorem Completion.value_eraseLines (c : Completion) :
    c.eraseLines.value = c.value.eraseLines := by
  cases c <;> rfl

/-- A fault with no line. -/
def Fault.eraseLine : Fault → Fault
  | .error e => .error ⟨e.cause, none⟩
  | fault => fault

namespace Eval

/-- Both results are values, the second one changed by `f`, or both are faults that are the same
without their lines. -/
abbrev EndsAlike {α β : Type} (f : α → β) : Except Fault α → Except Fault β → Prop :=
  ResultsAlike (fun e e' => e.eraseLine = e'.eraseLine) fun a b => b = f a

/-- In a state without lines the second computation does what the first one does in the state: it
ends alike and leaves the state without lines. -/
def Mirrors {α β : Type} (f : α → β) (x : Eval α) (y : Eval β) : Prop :=
  ∀ m, EndsAlike f (runIn m x).1 (runIn m.eraseLines y).1 ∧
    (runIn m.eraseLines y).2 = (runIn m x).2.eraseLines

section Steps

variable {α β γ δ : Type} {f : α → β}

/-- Values are returned alike. -/
theorem mirrors_pure (a : α) {b : β} (h : b = f a) : Mirrors f (pure a) (pure b) :=
  fun _ => ⟨h, rfl⟩

/-- Faults that differ in their lines only. -/
theorem mirrors_throw {fault fault' : Fault} (h : fault.eraseLine = fault'.eraseLine) :
    Mirrors f (throw fault) (throw fault') :=
  fun _ => ⟨h, rfl⟩

/-- A failure is the same without lines. -/
theorem mirrors_fail (cause : EvalError.Cause) : Mirrors f (fail cause) (fail cause) :=
  mirrors_throw rfl

/-- The results of operations on values that agree. -/
theorem mirrors_ofResult {result : Except EvalError.Cause α} {result' : Except EvalError.Cause β}
    (h : result' = result.map f) : Mirrors f (ofResult result) (ofResult result') := by
  subst h
  cases result with
  | ok value => exact mirrors_pure value rfl
  | error cause => exact mirrors_fail cause

/-- Two computations one after the other. -/
theorem Mirrors.bind {g : γ → δ} {x : Eval α} {y : Eval β} {k : α → Eval γ} {k' : β → Eval δ}
    (hx : Mirrors f x y) (hk : ∀ value, Mirrors g (k value) (k' (f value))) :
    Mirrors g (x >>= k) (y >>= k') := by
  intro m
  obtain ⟨hresult, hstate⟩ := hx m
  rw [runIn_bind, runIn_bind]
  match hrun : runIn m x, hrun' : runIn m.eraseLines y with
  | (.ok value, m₁), (.ok value', m₂) =>
    rw [hrun, hrun'] at hresult hstate
    cases hresult
    cases hstate
    exact hk value m₁
  | (.error fault, m₁), (.error fault', m₂) =>
    rw [hrun, hrun'] at hresult hstate
    exact ⟨hresult, hstate⟩
  | (.ok _, _), (.error _, _) | (.error _, _), (.ok _, _) =>
    rw [hrun, hrun'] at hresult
    exact hresult.elim

/-- Placing errors changes their lines only. -/
theorem endsAlike_placed {r : Except Fault α} {r' : Except Fault β} (h : EndsAlike f r r')
    (line line' : Option Int) : EndsAlike f (placed line r) (placed line' r') := by
  cases r with
  | ok value =>
    cases r' with
    | ok value' => exact h
    | error fault' => exact h.elim
  | error fault =>
    cases r' with
    | ok value' => exact h.elim
    | error fault' => cases fault <;> cases fault' <;> exact h

/-- Running out of depth is reported alike, apart from the line. -/
theorem endsAlike_reported {r : Except Fault α} {r' : Except Fault β} (h : EndsAlike f r r')
    (line line' : Int) : EndsAlike f (reported line r) (reported line' r') := by
  cases r with
  | ok value =>
    cases r' with
    | ok value' => exact h
    | error fault' => exact h.elim
  | error fault =>
    cases r' with
    | ok value' => exact h.elim
    | error fault' =>
      cases fault with
      | exhausted =>
        cases fault' with
        | exhausted => exact rfl
        | _ => cases h
      | _ =>
        cases fault' with
        | exhausted => cases h
        | _ => exact h

/-- Errors are placed alike, apart from the line. -/
theorem Mirrors.placedAt {x : Eval α} {y : Eval β} (h : Mirrors f x y)
    (line line' : Option Int) : Mirrors f (placedAt line x) (placedAt line' y) := by
  intro m
  rw [runIn_placedAt, runIn_placedAt]
  exact ⟨endsAlike_placed (h m).1 line line', (h m).2⟩

/-- A computation for the members of a list. -/
theorem mirrors_mapM {g : γ → δ} {k : α → Eval γ} {k' : β → Eval δ} (xs : List α)
    (hk : ∀ x, Mirrors g (k x) (k' (f x))) :
    Mirrors (List.map g) (xs.mapM k) ((xs.map f).mapM k') := by
  induction xs with
  | nil => exact mirrors_pure [] rfl
  | cons x xs ih =>
    rw [List.map_cons, List.mapM_cons, List.mapM_cons]
    refine (hk x).bind fun value => ?_
    exact ih.bind fun values => mirrors_pure _ rfl

/-- A computation for the members of a list, without results. -/
theorem mirrors_forM {k : α → Eval PUnit} {k' : β → Eval PUnit} (xs : List α)
    (hk : ∀ x, Mirrors id (k x) (k' (f x))) : Mirrors id (xs.forM k) ((xs.map f).forM k') := by
  induction xs with
  | nil => exact mirrors_pure _ rfl
  | cons x xs ih => exact (hk x).bind fun _ => ih

/-- Values are displayed alike. -/
theorem mirrors_displayed (levels : Nat) (value : Value) :
    Mirrors id (displayed levels value) (displayed levels value.eraseLines) := by
  rw [displayed, displayed, Value.nesting_eraseLines, Value.display_eraseLines]
  split
  · exact mirrors_pure _ rfl
  · exact mirrors_throw rfl

/-- The same text is written. -/
theorem mirrors_write (text : String) : Mirrors id (write text) (write text) :=
  fun _ => ⟨rfl, rfl⟩

/-- Closures are made alike. -/
theorem mirrors_closure (params : List Ident) (body : Ast.Block) (line : Int) (frame : FrameId) :
    Mirrors Value.eraseLines (closure params body line frame)
      (closure (params.map Ident.eraseLine) body.eraseLines 0 frame) := by
  intro m
  rw [runIn_closure, runIn_closure]
  refine ⟨rfl, ?_⟩
  have hframe : (m.eraseLines.store.frame? frame).getD ⟨none, []⟩ =
      ((m.store.frame? frame).getD ⟨none, []⟩).eraseLines := by
    rw [Machine.eraseLines, Store.frame?_eraseLines]
    cases m.store.frame? frame <;> rfl
  rw [hframe]
  rfl

/-- A name has the same value, apart from lines. -/
theorem mirrors_lookup (table : BuiltinTable) (name : String) (frame : FrameId) :
    Mirrors Value.eraseLines (lookup table name frame) (lookup table name frame) := by
  have hfound : Mirrors (Option.map Value.eraseLines) (valueOf? name frame)
      (valueOf? name frame) := by
    intro m
    rw [runIn_valueOf?, runIn_valueOf?]
    exact ⟨m.store.get?_eraseLines name frame, rfl⟩
  refine hfound.bind fun found => ?_
  match found with
  | some value => exact mirrors_pure value rfl
  | none =>
    match table.find? name with
    | some builtin => exact mirrors_pure _ rfl
    | none => exact mirrors_fail _

/-- The value is assigned without its lines. -/
theorem mirrors_assign (frame : FrameId) (name : String) (value : Value) :
    Mirrors id (assign frame name value) (assign frame name value.eraseLines) := by
  intro m
  rw [runIn_assign, runIn_assign]
  refine ⟨rfl, ?_⟩
  rw [Machine.eraseLines, Store.set_eraseLines]
  rfl

/-- New frames are numbered alike. -/
theorem mirrors_enclose (parent : FrameId) : Mirrors id (enclose parent) (enclose parent) := by
  intro m
  rw [runIn_enclose, runIn_enclose, Machine.eraseLines, Store.enclose_eraseLines]
  exact ⟨rfl, rfl⟩

/-- Statements one after the other. -/
theorem mirrors_statementsAfter {execute execute' : Ast.Stmt → Eval Completion}
    (h : ∀ s, Mirrors Completion.eraseLines (execute s) (execute' s.eraseLines))
    (ss : List Ast.Stmt) (last : Completion) :
    Mirrors Completion.eraseLines (statementsAfter last execute ss)
      (statementsAfter last.eraseLines execute' (ss.map Ast.Stmt.eraseLines)) := by
  induction ss generalizing last with
  | nil => exact mirrors_pure last rfl
  | cons s ss ih =>
    rw [List.map_cons, statementsAfter, statementsAfter]
    refine (h s).bind fun completion => ?_
    cases completion with
    | normal value => exact ih (.normal value)
    | returning value => exact mirrors_pure _ rfl

/-- Lists of statements. -/
theorem mirrors_statements {execute execute' : Ast.Stmt → Eval Completion}
    (h : ∀ s, Mirrors Completion.eraseLines (execute s) (execute' s.eraseLines))
    (ss : List Ast.Stmt) :
    Mirrors Completion.eraseLines (statements execute ss)
      (statements execute' (ss.map Ast.Stmt.eraseLines)) :=
  mirrors_statementsAfter h ss (.normal .null)

/-- The value that a list of statements ends with. -/
theorem mirrors_statements_value {execute execute' : Ast.Stmt → Eval Completion}
    (h : ∀ s, Mirrors Completion.eraseLines (execute s) (execute' s.eraseLines))
    (ss : List Ast.Stmt) :
    Mirrors Value.eraseLines (do return (← statements execute ss).value)
      (do return (← statements execute' (ss.map Ast.Stmt.eraseLines)).value) :=
  (mirrors_statements h ss).bind fun completion =>
    mirrors_pure _ (Completion.value_eraseLines completion)

/-- The same branch of an `if` is selected. -/
theorem mirrors_branch {evaluate evaluate' : Ast.Expr → Eval Value}
    {execute execute' : Ast.Stmt → Eval Completion}
    (hevaluate : ∀ e, Mirrors Value.eraseLines (evaluate e) (evaluate' e.eraseLines))
    (hexecute : ∀ s, Mirrors Completion.eraseLines (execute s) (execute' s.eraseLines))
    (condition : Ast.Expr) (consequence : Ast.Block) (alternative : Option Ast.Block) :
    Mirrors Completion.eraseLines (branch evaluate execute condition consequence alternative)
      (branch evaluate' execute' condition.eraseLines consequence.eraseLines
        (alternative.map Ast.Block.eraseLines)) := by
  refine (hevaluate condition).bind fun value => ?_
  rw [Value.truthy_eraseLines]
  split
  · rw [Ast.Block.statements_eraseLines]
    exact mirrors_statements hexecute _
  · match alternative with
    | some b =>
      rw [Option.map_some]
      dsimp only
      rw [Ast.Block.statements_eraseLines]
      exact mirrors_statements hexecute _
    | none => exact mirrors_pure _ rfl

/-- Parameters are bound to the arguments without their lines. -/
theorem mirrors_bindParams (frame : FrameId) (params : List Ident) (args : List Value) :
    Mirrors id (bindParams frame params args)
      (bindParams frame (params.map Ident.eraseLine) (args.map Value.eraseLines)) := by
  induction params generalizing args with
  | nil => exact mirrors_pure _ rfl
  | cons param params ih =>
    cases args with
    | nil => exact mirrors_pure _ rfl
    | cons arg args =>
      rw [List.map_cons, List.map_cons, bindParams, bindParams]
      exact (mirrors_assign frame param.name arg).bind fun _ => ih args

/-- Arrays are found where arrays are due. -/
theorem mirrors_expectArray (name : String) (value : Value) :
    Mirrors (List.map Value.eraseLines) (expectArray name value)
      (expectArray name value.eraseLines) := by
  cases value with
  | array elements => exact mirrors_pure elements (Value.eraseLinesList_eq_map elements)
  | _ => exact mirrors_fail _

/-- Functions are found where functions are due. -/
theorem mirrors_expectCallable (name : String) (value : Value) :
    Mirrors Value.eraseLines (expectCallable name value)
      (expectCallable name value.eraseLines) := by
  cases value with
  | closure params body captured => exact mirrors_pure _ rfl
  | builtin b => exact mirrors_pure _ rfl
  | _ => exact mirrors_fail _

/-- A wrong number of arguments is the same without lines. -/
theorem mirrors_builtinArity (name : String) (want : Nat) (args : List Value) :
    Mirrors f (fail (.builtinArity name want args.length))
      (fail (.builtinArity name want (args.map Value.eraseLines).length)) := by
  rw [List.length_map]
  exact mirrors_fail _

/-- Builtins do the same with arguments without lines. -/
theorem mirrors_applyBuiltin {depth : Nat} {call : Value → List Value → Eval Value}
    (hcall : ∀ function args, Mirrors Value.eraseLines (call function args)
      (call function.eraseLines (args.map Value.eraseLines))) (b : Builtin) (args : List Value) :
    Mirrors Value.eraseLines (applyBuiltin depth call b args)
      (applyBuiltin depth call b (args.map Value.eraseLines)) := by
  cases b with
  | len =>
    match args with
    | [target] =>
      refine (mirrors_expectArray "len" target).bind fun elements => ?_
      exact mirrors_pure _ (by rw [List.length_map]; rfl)
    | [] => exact mirrors_builtinArity "len" 1 []
    | first :: second :: rest => exact mirrors_builtinArity "len" 1 (first :: second :: rest)
  | map =>
    match args with
    | [target, function] =>
      refine (mirrors_expectArray "map" target).bind fun elements => ?_
      refine (mirrors_expectCallable "map" function).bind fun function => ?_
      have hcalls : Mirrors (List.map Value.eraseLines)
          (elements.mapM fun element => call function [element])
          ((elements.map Value.eraseLines).mapM fun element =>
            call function.eraseLines [element]) :=
        mirrors_mapM elements fun element => hcall function [element]
      refine hcalls.bind fun values => ?_
      exact mirrors_pure _ (by rw [Value.eraseLines, Value.eraseLinesList_eq_map])
    | [] => exact mirrors_builtinArity "map" 2 []
    | [only] => exact mirrors_builtinArity "map" 2 [only]
    | first :: second :: third :: rest =>
      exact mirrors_builtinArity "map" 2 (first :: second :: third :: rest)
  | puts =>
    refine (mirrors_forM args fun arg => ?_).bind fun _ => mirrors_pure _ rfl
    exact (mirrors_displayed depth arg).bind fun text => mirrors_write _
  | argCount name => exact mirrors_pure _ (by rw [List.length_map]; rfl)

end Steps

/-- Evaluation at a depth does the same without lines. -/
structure MirrorsAt (table : BuiltinTable) (depth : Nat) : Prop where
  expr : ∀ frame e, Mirrors Value.eraseLines (expr table depth frame e)
    (expr table depth frame e.eraseLines)
  stmt : ∀ frame s, Mirrors Completion.eraseLines (stmt table depth frame s)
    (stmt table depth frame s.eraseLines)
  apply : ∀ line line' function args, Mirrors Value.eraseLines
    (apply table depth line function args)
    (apply table depth line' function.eraseLines (args.map Value.eraseLines))

section Depth

variable {table : BuiltinTable} {depth : Nat}

/-- Lists of expressions do the same without lines. -/
theorem MirrorsAt.list (h : MirrorsAt table depth) (frame : FrameId) (es : List Ast.Expr) :
    Mirrors (List.map Value.eraseLines) (es.mapM (Eval.expr table depth frame))
      ((Ast.eraseLinesList es).mapM (Eval.expr table depth frame)) := by
  rw [Ast.eraseLinesList_eq_map]
  exact mirrors_mapM es (h.expr frame)

/-- One more level of expressions does the same without lines. -/
theorem MirrorsAt.expr_succ (h : MirrorsAt table depth) (frame : FrameId) (e : Ast.Expr) :
    Mirrors Value.eraseLines (Eval.expr table (depth + 1) frame e)
      (Eval.expr table (depth + 1) frame e.eraseLines) := by
  rw [Eval.expr.eq_def, Eval.expr.eq_def]
  refine Mirrors.placedAt ?_ _ _
  cases e with
  | ident name line => exact mirrors_lookup table name frame
  | int value line => exact mirrors_pure _ rfl
  | bool value line => exact mirrors_pure _ rfl
  | unary op operand line =>
    refine (h.expr frame operand).bind fun value => ?_
    exact mirrors_ofResult (Value.unary_eraseLines op value)
  | binary op left right line =>
    refine (h.expr frame left).bind fun value => ?_
    refine (h.expr frame right).bind fun value' => ?_
    exact mirrors_ofResult (Value.binary_eraseLines op value value')
  | function params body line => exact mirrors_closure params body line frame
  | call callee args line =>
    refine (h.expr frame callee).bind fun function => ?_
    refine (h.list frame args).bind fun values => ?_
    exact h.apply (some line) (some 0) function values
  | array elements line =>
    refine (h.list frame elements).bind fun values => ?_
    exact mirrors_pure _ (by rw [Value.eraseLines, Value.eraseLinesList_eq_map])
  | index array index line =>
    refine (h.expr frame array).bind fun value => ?_
    refine (h.expr frame index).bind fun value' => ?_
    exact mirrors_ofResult (Value.element_eraseLines value value')
  | cond condition consequence alternative line =>
    rw [Ast.Expr.eraseLines_cond]
    refine (mirrors_branch (h.expr frame) (h.stmt frame) condition consequence
      alternative).bind fun completion => ?_
    cases completion with
    | normal value => exact mirrors_pure _ rfl
    | returning value => exact mirrors_fail _
  | misplaced statement =>
    have hname := (Ast.Expr.misplaced statement).familyName_eraseLines
    exact mirrors_throw (congrArg (Fault.illFormed <| .notAnExpression ·) hname.symm)
  | foreign => exact mirrors_throw rfl

/-- One more level of statements does the same without lines. -/
theorem MirrorsAt.stmt_succ (h : MirrorsAt table depth) (frame : FrameId) (s : Ast.Stmt) :
    Mirrors Completion.eraseLines (Eval.stmt table (depth + 1) frame s)
      (Eval.stmt table (depth + 1) frame s.eraseLines) := by
  rw [Eval.stmt.eq_def, Eval.stmt.eq_def]
  refine Mirrors.placedAt ?_ _ _
  cases s with
  | var target value line =>
    refine (h.expr frame value).bind fun v => ?_
    exact (mirrors_assign frame target.name v).bind fun _ => mirrors_pure _ rfl
  | ret value line => exact (h.expr frame value).bind fun v => mirrors_pure _ rfl
  | expr value line =>
    have hplain : Mirrors Completion.eraseLines
        (do return Completion.normal (← Eval.expr table depth frame value))
        (do return Completion.normal (← Eval.expr table depth frame value.eraseLines)) :=
      (h.expr frame value).bind fun v => mirrors_pure _ rfl
    cases value with
    | cond condition consequence alternative l =>
      rw [Ast.Stmt.eraseLines, Ast.Expr.eraseLines_cond]
      exact mirrors_branch (h.expr frame) (h.stmt frame) condition consequence alternative
    | _ => exact hplain
  | block body =>
    rw [Ast.Stmt.eraseLines]
    dsimp only
    rw [Ast.Block.statements_eraseLines]
    exact mirrors_statements (h.stmt frame) body.statements
  | misplaced expression =>
    have hname := (Ast.Stmt.misplaced expression).familyName_eraseLines
    exact mirrors_throw (congrArg (Fault.illFormed <| .notAStatement ·) hname.symm)
  | program statements => exact mirrors_throw rfl

/-- One more level of calls does the same without lines. -/
theorem MirrorsAt.apply_succ (h : MirrorsAt table depth) (line line' : Option Int)
    (function : Value) (args : List Value) :
    Mirrors Value.eraseLines (Eval.apply table (depth + 1) line function args)
      (Eval.apply table (depth + 1) line' function.eraseLines (args.map Value.eraseLines)) := by
  rw [Eval.apply.eq_def, Eval.apply.eq_def]
  refine Mirrors.placedAt ?_ _ _
  cases function with
  | closure params body captured =>
    change Mirrors _ (if args.length ≠ params.length then _ else _)
      (if (args.map Value.eraseLines).length ≠ (params.map Ident.eraseLine).length then _ else _)
    rw [List.length_map, List.length_map, Ast.Block.statements_eraseLines]
    split
    · exact mirrors_fail _
    · refine (mirrors_enclose captured).bind fun frame => ?_
      refine (mirrors_bindParams frame params args).bind fun _ => ?_
      exact mirrors_statements_value (h.stmt frame) body.statements
  | builtin b => exact mirrors_applyBuiltin (h.apply none none) b args
  | _ => exact mirrors_fail _

/-- At every depth evaluation does the same without lines. -/
theorem mirrorsAt (table : BuiltinTable) (depth : Nat) : MirrorsAt table depth := by
  induction depth with
  | zero => exact ⟨fun _ _ => mirrors_throw rfl, fun _ _ => mirrors_throw rfl,
      fun _ _ _ _ => mirrors_throw rfl⟩
  | succ depth ih => exact ⟨ih.expr_succ, ih.stmt_succ, ih.apply_succ⟩

/-- A whole program does the same without lines. -/
theorem mirrors_program (table : BuiltinTable) (depth : Nat) (frame : FrameId) (p : Ast.Program) :
    Mirrors Value.eraseLines (node table depth frame (.program p))
      (node table depth frame (.program p.eraseLines)) := by
  have hstatements := mirrors_statements_value ((mirrorsAt table depth).stmt frame) p.statements
  rw [← Ast.eraseLinesStatements_eq_map] at hstatements
  intro m
  rw [node, node, runIn_reportingExhaustion, runIn_reportingExhaustion]
  exact ⟨endsAlike_reported (hstatements m).1 _ _, (hstatements m).2⟩

/-- Programs that are the same without their lines are run alike. -/
theorem program_alike {p q : Ast.Program} (hpq : p.eraseLines = q.eraseLines) (table : BuiltinTable)
    (depth : Nat) (frame : FrameId) (m : Machine) :
    ResultsAlike (fun e e' => e.eraseLine = e'.eraseLine)
      (fun v w => v.eraseLines = w.eraseLines) (runIn m (node table depth frame (.program p))).1
      (runIn m (node table depth frame (.program q))).1 ∧
    (runIn m (node table depth frame (.program p))).2.eraseLines =
      (runIn m (node table depth frame (.program q))).2.eraseLines := by
  obtain ⟨hresult, hstate⟩ := mirrors_program table depth frame p m
  obtain ⟨hresult', hstate'⟩ := mirrors_program table depth frame q m
  rw [← hpq] at hresult' hstate'
  exact ⟨hresult.of_common hresult', hstate.symm.trans hstate'⟩

end Depth

end Eval

/-- The failures are of one class and wording; only their lines may differ. The wording and the
category of an error of a running program are those of its cause. -/
def Failure.SameButLine : Failure → Failure → Prop
  | .parse e, .parse e' => e.message = e'.message
  | .eval e, .eval e' => e.cause = e'.cause
  | .broken cause, .broken cause' => cause = cause'
  | _, _ => False

/-- Failures to read a text are compared by their wording. -/
theorem ParseFailure.sameButLine {x y : ParseFailure} (h : x.wording = y.wording) :
    x.toFailure.SameButLine y.toFailure := by
  cases x with
  | rejected e =>
    cases y with
    | rejected e' => exact Option.some.inj h
    | oversizedLiteral => cases h
  | oversizedLiteral =>
    cases y with
    | rejected e' => cases h
    | oversizedLiteral => rfl

/-- Faults that are the same without their lines. -/
theorem Fault.sameButLine {x y : Fault} (h : x.eraseLine = y.eraseLine) :
    x.toFailure.SameButLine y.toFailure := by
  cases x with
  | error e =>
    cases y with
    | error e' => exact (EvalError.mk.inj (Fault.error.inj h)).1
    | _ => cases h
  | illFormed e =>
    cases y with
    | illFormed e' => exact congrArg Breakdown.illFormed (Fault.illFormed.inj h)
    | _ => cases h
  | exhausted =>
    cases y with
    | exhausted => rfl
    | _ => cases h

namespace Session

/-- A session whose frames have lost their lines. -/
def eraseLines (s : Session) : Session :=
  { s with store := s.store.eraseLines }

/-- Without lines the global variables are displayed as they are. -/
theorem display_globalFrame_eraseLines (s : Session) :
    s.eraseLines.globalFrame.bindings.map (fun (name, value) => (name, value.display)) =
      s.globalFrame.bindings.map fun (name, value) => (name, value.display) := by
  have hframe : s.eraseLines.globalFrame = s.globalFrame.eraseLines := by
    rw [globalFrame, globalFrame, eraseLines, Store.frame?_eraseLines]
    cases s.store.frame? s.global <;> rfl
  rw [hframe, Frame.display_bindings_eraseLines]

/-- Outcomes, outputs and sessions that are the same apart from lines. -/
def SeenAlike (x y : Except Failure Value × String × Session) : Prop :=
  ResultsAlike Failure.SameButLine (fun v w => v.eraseLines = w.eraseLines) x.1 y.1 ∧
    x.2.1 = y.2.1 ∧ x.2.2.eraseLines = y.2.2.eraseLines

/-- Texts with the same tokens are evaluated alike. -/
theorem evaluate_alike {a b : String} (h : SameTokens a b) (s : Session) :
    SeenAlike ((s.evaluate a).1.outcome, (s.evaluate a).1.output, (s.evaluate a).2)
      ((s.evaluate b).1.outcome, (s.evaluate b).1.output, (s.evaluate b).2) := by
  have hparse := h.parse (.atMost (levelsOf s.nextLimit.1))
  rw [s.evaluate_eq a, s.evaluate_eq b]
  split
  · exact ⟨rfl, rfl, rfl⟩
  · cases ha : parse (.atMost (levelsOf s.nextLimit.1)) a with
    | error x =>
      cases hb : parse (.atMost (levelsOf s.nextLimit.1)) b with
      | error y =>
        rw [ha, hb] at hparse
        exact ⟨ParseFailure.sameButLine hparse, rfl, rfl⟩
      | ok q =>
        rw [ha, hb] at hparse
        exact hparse.elim
    | ok p =>
      cases hb : parse (.atMost (levelsOf s.nextLimit.1)) b with
      | error y =>
        rw [ha, hb] at hparse
        exact hparse.elim
      | ok q =>
        rw [ha, hb] at hparse
        obtain ⟨hresult, hstate⟩ := Eval.program_alike hparse s.builtins
          (levelsOf s.nextLimit.1) s.global ⟨s.store, "", []⟩
        have houtput := congrArg Machine.output hstate
        have hstore := congrArg Machine.store hstate
        refine ⟨hresult.mapError fun _ _ => Fault.sameButLine, houtput, ?_⟩
        exact congrArg (fun store => { s with limit := s.nextLimit.1, store }) hstore

/-- How a text is laid out never changes what evaluating it does: if two texts have the same tokens
apart from their lines, then both end in values of the same display form or both in failures that
are the same but for the line, the same text is written, and the global variables are displayed
alike afterwards. -/
theorem evaluate_layout {a b : String} (h : SameTokens a b) (s : Session) :
    ResultsAlike Failure.SameButLine (fun v w => v.display = w.display)
      (s.evaluate a).1.outcome (s.evaluate b).1.outcome ∧
    (s.evaluate a).1.output = (s.evaluate b).1.output ∧
    (s.evaluate a).2.globalFrame.bindings.map (fun (name, value) => (name, value.display)) =
      (s.evaluate b).2.globalFrame.bindings.map fun (name, value) => (name, value.display) := by
  obtain ⟨houtcome, houtput, hsession⟩ := evaluate_alike h s
  refine ⟨houtcome.imp fun v w hvw => ?_, houtput, ?_⟩
  · rw [← v.display_eraseLines, hvw, w.display_eraseLines]
  · rw [← display_globalFrame_eraseLines, hsession, display_globalFrame_eraseLines]

/-- A function is defined and called, all on one line. -/
def denseText : String :=
  "var f = |x| \x7b x + y \x7d; f(1)"

/-- The same with a comment and on several lines. -/
def spreadText : String :=
  "# adds\nvar f = |x| \x7b\n  x + y\n\x7d;\nf ( 1 )\n"

/-- The tokens of both, by the lines on which the definition begins, the sum stands, the definition
ends and the call stands. -/
def calledTokens (first sum last call : Nat) : List Token :=
  [⟨.kwVar, "var", first⟩, ⟨.ident, "f", first⟩, ⟨.assign, "=", first⟩, ⟨.bar, "|", first⟩,
    ⟨.ident, "x", first⟩, ⟨.bar, "|", first⟩, ⟨.leftBrace, "\x7b", first⟩, ⟨.ident, "x", sum⟩,
    ⟨.plus, "+", sum⟩, ⟨.ident, "y", sum⟩, ⟨.rightBrace, "\x7d", last⟩, ⟨.semicolon, ";", last⟩,
    ⟨.ident, "f", call⟩, ⟨.leftParen, "(", call⟩, ⟨.integer, "1", call⟩, ⟨.rightParen, ")", call⟩]

/-- The statements of both, by these lines. -/
def calledStatements (first sum call : Nat) : List Surface.Stmt :=
  [.var ⟨"f", first⟩ (.function [⟨"x", first⟩] (.mk [.expr (.binary .add (.ident "x" sum)
      (.ident "y" sum) sum) sum] first) first) first,
    .expr (.call (.ident "f" call) [.integer "1" call] call) call]

/-- The undefined name is met on another line when the text is spread out, and that is all. -/
theorem evaluate_layout_spreadText :
    let s := start .standard none
    SameTokens denseText spreadText ∧
      (s.evaluate denseText).1.outcome = .error (.eval ⟨.undefinedName "y", some 1⟩) ∧
      (s.evaluate spreadText).1.outcome = .error (.eval ⟨.undefinedName "y", some 3⟩) ∧
      (s.evaluate denseText).2.globalFrame.bindings.map (fun (name, v) => (name, v.display)) =
        (s.evaluate spreadText).2.globalFrame.bindings.map fun (name, v) => (name, v.display) := by
  intro s
  have htokens : SameTokens denseText spreadText := by
    rw [SameTokens]
    decide +kernel
  have hlevels : levelsOf s.nextLimit.1 = 5000 := by decide
  have hdense : (s.evaluate denseText).1.outcome =
      .error (.eval ⟨.undefinedName "y", some 1⟩) := by
    have hstream : tokenStream denseText = ⟨calledTokens 1 1 1 1, 1⟩ := by decide +kernel
    have htree : Surface.parse (.atMost 5000) denseText = .ok (calledStatements 1 1 1) := by
      rw [Surface.parse_eq_unrolled 100, hstream]
      rfl
    have heq := congrArg (·.1) (s.evaluate_eq denseText)
    rw [hlevels, parse, htree] at heq
    exact heq.trans (by with_unfolding_all rfl)
  have hspread : (s.evaluate spreadText).1.outcome =
      .error (.eval ⟨.undefinedName "y", some 3⟩) := by
    have hstream : tokenStream spreadText = ⟨calledTokens 2 3 4 5, 6⟩ := by decide +kernel
    have htree : Surface.parse (.atMost 5000) spreadText = .ok (calledStatements 2 3 5) := by
      rw [Surface.parse_eq_unrolled 100, hstream]
      rfl
    have heq := congrArg (·.1) (s.evaluate_eq spreadText)
    rw [hlevels, parse, htree] at heq
    exact heq.trans (by with_unfolding_all rfl)
  exact ⟨htokens, hdense, hspread, (evaluate_layout htokens s).2.2⟩

end Session

end EtherLang
