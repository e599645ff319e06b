import EtherLang.Proofs.Eval.Course

/-!
# Disciplines of a running program

A discipline says which integers, which lengths of arrays and which builtins may occur. A tree obeys
a discipline if its literals do, its operators are operators of the language and its nodes stand
where they belong; a value obeys it if all its parts do, the bodies of its closures included.

A run that starts with a tree and a state that obey a discipline obeys it throughout: every task
that it begins does, and every state and every value in which a task ends. Besides, such a run ends
in no fault that only a malformed tree can cause.
-/

namespace EtherLang

/-- What may occur in a running program. Integers that are wrapped may occur, and so may the lengths
of arrays that may occur. -/
structure Discipline where
  integer : Int → Prop
  length : Nat → Prop
  builtin : Builtin → Prop
  integer_wrap : ∀ n, integer (Integer.wrap n)
  integer_length : ∀ n : Nat, length n → integer n
  integer_argCount : ∀ name, builtin (.argCount name) → ∀ n : Nat, integer n

namespace Ast

mutual

/-- The expression is one of the language, and its literals may occur. -/
def Expr.Obeys (d : Discipline) : Expr → Prop
  | .ident _ _ | .bool _ _ => True
  | .int value _ => d.integer value
  | .unary (.known _) operand _ => operand.Obeys d
  | .binary (.known _) left right _ => left.Obeys d ∧ right.Obeys d
  | .function _ body _ => body.Obeys d
  | .call callee args _ => callee.Obeys d ∧ ObeyList d args
  | .array elements _ => d.length elements.length ∧ ObeyList d elements
  | .index array index _ => array.Obeys d ∧ index.Obeys d
  | .cond condition consequence none _ => condition.Obeys d ∧ consequence.Obeys d
  | .cond condition consequence (some alternative) _ =>
    condition.Obeys d ∧ consequence.Obeys d ∧ alternative.Obeys d
  | .unary (.unknown _) _ _ | .binary (.unknown _) _ _ _ | .misplaced _ | .foreign => False

/-- The expressions are ones of the language, and their literals may occur. -/
def ObeyList (d : Discipline) : List Expr → Prop
  | [] => True
  | first :: others => first.Obeys d ∧ ObeyList d others

/-- The statement is one of the language, and its literals may occur. -/
def Stmt.Obeys (d : Discipline) : Stmt → Prop
  | .var _ value _ | .ret value _ | .expr value _ => value.Obeys d
  | .block body => body.Obeys d
  | .misplaced _ | .program _ => False

/-- The statements of the block are ones of the language, and their literals may occur. -/
def Block.Obeys (d : Discipline) : Block → Prop
  | .mk statements _ => ObeyStatements d statements

/-- The statements are ones of the language, and their literals may occur. -/
def ObeyStatements (d : Discipline) : List Stmt → Prop
  | [] => True
  | first :: others => first.Obeys d ∧ ObeyStatements d others

end

variable {d : Discipline}

/-- Expressions obey a discipline if each of them does. -/
theorem obeyList_iff {es : List Expr} : ObeyList d es ↔ ∀ e ∈ es, e.Obeys d := by
  induction es with
  | nil => simp [ObeyList]
  | cons first others ih => rw [ObeyList, ih, List.forall_mem_cons]

/-- Statements obey a discipline if each of them does. -/
theorem obeyStatements_iff {ss : List Stmt} : ObeyStatements d ss ↔ ∀ s ∈ ss, s.Obeys d := by
  induction ss with
  | nil => simp [ObeyStatements]
  | cons first others ih => rw [ObeyStatements, ih, List.forall_mem_cons]

/-- A block obeys a discipline if each of its statements does. -/
theorem Block.obeys_iff {b : Block} : b.Obeys d ↔ ∀ s ∈ b.statements, s.Obeys d := by
  obtain ⟨ss, line⟩ := b
  exact obeyStatements_iff

/-- The parts of an `if` that obeys a discipline obey it. -/
theorem Expr.Obeys.cond {condition : Expr} {consequence : Block} {alternative : Option Block}
    {line : Int} (h : (Expr.cond condition consequence alternative line).Obeys d) :
    condition.Obeys d ∧ consequence.Obeys d ∧ ∀ b ∈ alternative, b.Obeys d := by
  cases alternative with
  | none => exact ⟨h.1, h.2, nofun⟩
  | some b =>
    refine ⟨h.1, h.2.1, ?_⟩
    rintro _ ⟨⟩
    exact h.2.2

end Ast

namespace Value

mutual

/-- All parts of the value may occur. -/
def Obeys (d : Discipline) : Value → Prop
  | null | bool _ => True
  | int n => d.integer n
  | array elements => d.length elements.length ∧ ObeyList d elements
  | closure _ body _ => body.Obeys d
  | builtin b => d.builtin b

/-- All parts of the values may occur. -/
def ObeyList (d : Discipline) : List Value → Prop
  | [] => True
  | first :: others => first.Obeys d ∧ ObeyList d others

end

variable {d : Discipline} {v w : Value}

/-- Values obey a discipline if each of them does. -/
theorem obeyList_iff {values : List Value} : ObeyList d values ↔ ∀ v ∈ values, v.Obeys d := by
  induction values with
  | nil => simp [ObeyList]
  | cons first others ih => rw [ObeyList, ih, List.forall_mem_cons]

end Value

/-- The causes that only a tree with an unknown operator can have: an operator with one operand, or
an operator on two integers, is none of the language. -/
def EvalError.Cause.IsFallThrough : EvalError.Cause → Prop
  | .unknownUnary (.unknown _) _ => True
  | .unknownBinary .integer _ .integer => True
  | _ => False

/-- The faults that a program of the language can end in: errors whose cause lies with the program,
and running out of depth. -/
def Fault.IsProper : Fault → Prop
  | .error e => ¬e.cause.IsFallThrough
  | .illFormed _ => False
  | .exhausted => True

namespace Value

variable {d : Discipline} {v w : Value} {cause : EvalError.Cause}

/-- What an operator with one operand gives may occur. -/
theorem obeys_unary {op : Spelled UnaryOp} (h : unary op v = .ok w) : w.Obeys d := by
  unfold unary at h
  split at h
  · cases h
    trivial
  · cases h
    exact d.integer_wrap _
  · cases h

/-- A known operator with one operand does not fall through. -/
theorem not_isFallThrough_unary {op : UnaryOp} (h : unary (.known op) v = .error cause) :
    ¬cause.IsFallThrough := by
  cases op with
  | not => cases h
  | negate =>
    cases v with
    | int n => cases h
    | _ =>
      cases h
      exact id

/-- What an operator gives for two integers may occur. -/
theorem obeys_onIntegers {op : BinaryOp} {a b : Int} (h : op.onIntegers a b = .ok w) :
    w.Obeys d := by
  cases op with
  | add | sub | mul =>
    cases h
    exact d.integer_wrap _
  | div =>
    rw [BinaryOp.onIntegers, Integer.quotient?] at h
    by_cases hb : b = 0
    · rw [if_pos hb] at h
      cases h
    · rw [if_neg hb] at h
      cases h
      exact d.integer_wrap _
  | equal | notEqual =>
    cases h
    trivial

/-- The operators know all integers. -/
theorem not_isFallThrough_onIntegers {op : BinaryOp} {a b : Int}
    (h : op.onIntegers a b = .error cause) : ¬cause.IsFallThrough := by
  cases op with
  | div =>
    rw [BinaryOp.onIntegers] at h
    split at h
    · cases h
    · cases h
      exact id
  | _ => cases h

/-- What an operator with two operands gives may occur. -/
theorem obeys_binary {op : Spelled BinaryOp} {u : Value} (h : binary op v w = .ok u) :
    u.Obeys d := by
  rw [binary.eq_def] at h
  split at h
  · cases h
  · split at h
    · exact obeys_onIntegers h
    · cases h
      trivial
    · cases h
      trivial
    · cases h

/-- A known operator with two operands does not fall through. -/
theorem not_isFallThrough_binary {op : BinaryOp} (h : binary (.known op) v w = .error cause) :
    ¬cause.IsFallThrough := by
  by_cases hkind : v.kind = w.kind
  · cases v with
    | int a =>
      cases w with
      | int b => exact not_isFallThrough_onIntegers h
      | _ => cases hkind
    | _ =>
      cases w <;> cases hkind
      cases op <;> cases h
      all_goals exact id
  · rw [binary.eq_def, if_pos hkind] at h
    cases h
    exact id

/-- The elements of an array may occur if the array may. -/
theorem Obeys.element {i : Value} (hv : v.Obeys d) (h : element v i = .ok w) : w.Obeys d := by
  unfold Value.element at h
  split at h
  · next elements =>
    split at h
    · split at h
      · cases h
      · split at h
        · next value hvalue =>
          cases h
          exact obeyList_iff.mp hv.2 _ (List.mem_of_getElem? hvalue)
        · cases h
    · cases h
  · cases h

/-- Taking an element fails for a cause that lies with the program. -/
theorem not_isFallThrough_element {i : Value} (h : element v i = .error cause) :
    ¬cause.IsFallThrough := by
  unfold Value.element at h
  split at h
  · split at h
    · split at h
      · cases h
        exact id
      · split at h
        · cases h
        · cases h
          exact id
    · cases h
      exact id
  · cases h
    exact id

end Value

/-- All values of the frame may occur. -/
def Frame.Obeys (d : Discipline) (f : Frame) : Prop :=
  ∀ binding ∈ f.bindings, binding.2.Obeys d

/-- All values of the store may occur. -/
def Store.Obeys (d : Discipline) (s : Store) : Prop :=
  ∀ id f, s.frame? id = some f → f.Obeys d

/-- All builtins of the table may occur. -/
def BuiltinTable.Obeys (d : Discipline) (table : BuiltinTable) : Prop :=
  ∀ name b, table.find? name = some b → d.builtin b

section Store

variable {d : Discipline} {f : Frame} {s : Store}

/-- The values of a frame that obeys a discipline obey it. -/
theorem Frame.Obeys.get? (h : f.Obeys d) {name : String} {value : Value}
    (hvalue : f.get? name = some value) : value.Obeys d := by
  obtain ⟨before, after, hbindings, -⟩ := List.lookup_eq_some_iff.mp hvalue
  refine h (name, value) ?_
  rw [hbindings]
  simp

/-- What is bound by a new binding is the new value or was bound before. -/
theorem Frame.mem_insert {name : String} {value : Value} {bindings : List (String × Value)}
    {b : String × Value} (hb : b ∈ insert name value bindings) :
    b = (name, value) ∨ b ∈ bindings := by
  induction bindings with
  | nil => exact .inl (List.mem_singleton.mp hb)
  | cons binding rest ih =>
    obtain ⟨other, old⟩ := binding
    rw [insert] at hb
    split at hb
    · exact (List.mem_cons.mp hb).imp_right (List.mem_cons_of_mem _)
    · obtain rfl | hrest := List.mem_cons.mp hb
      · exact .inr (List.mem_cons_self ..)
      · exact (ih hrest).imp_right (List.mem_cons_of_mem _)

/-- Binding a value that may occur. -/
theorem Frame.Obeys.set (h : f.Obeys d) (name : String) {value : Value} (hvalue : value.Obeys d) :
    (f.set name value).Obeys d := by
  intro binding hbinding
  obtain rfl | hold := Frame.mem_insert hbinding
  · exact hvalue
  · exact h binding hold

/-- The store without frames obeys every discipline. -/
theorem Store.obeys_empty : Store.empty.Obeys d := by
  intro id f hf
  cases hf

/-- A new frame without bindings. -/
theorem Store.Obeys.push (h : s.Obeys d) (parent : Option FrameId) :
    (s.push ⟨parent, []⟩).2.Obeys d := by
  intro id f hf
  simp only [Store.push, Store.frame?, Array.getElem?_push] at hf
  split at hf
  · cases hf
    exact List.forall_mem_nil _
  · exact h id f hf

/-- Binding a value that may occur in a frame of the store. -/
theorem Store.Obeys.set (h : s.Obeys d) (frame : FrameId) (name : String) {value : Value}
    (hvalue : value.Obeys d) : (s.set frame name value).Obeys d := by
  intro id f hf
  by_cases hid : id = frame
  · subst hid
    rw [frame?_set_self, Option.map_eq_some_iff] at hf
    obtain ⟨old, hold, rfl⟩ := hf
    exact (h id old hold).set name hvalue
  · rw [frame?_set_of_ne s hid] at hf
    exact h id f hf

/-- The values of a store that obeys a discipline obey it. -/
theorem Store.Obeys.get? (h : s.Obeys d) {name : String} {id : FrameId} {value : Value}
    (hvalue : s.get? name id = some value) : value.Obeys d := by
  rw [Store.get?] at hvalue
  split at hvalue
  · cases hvalue
  · next f hf =>
    split at hvalue
    · next found hfound =>
      cases hvalue
      exact (h id f hf).get? hfound
    · split at hvalue
      · cases hvalue
      · split at hvalue
        · exact h.get? hvalue
        · cases hvalue
termination_by id

end Store

namespace Eval

/-- The result is one with the property, or a fault that a program of the language can end in. -/
def EndsProperly {α : Type} (property : α → Prop) : Except Fault α → Prop
  | .ok a => property a
  | .error fault => fault.IsProper

/-- From a state that obeys the discipline the computation leaves one that does, and it ends
properly. -/
def Keeps {α : Type} (d : Discipline) (property : α → Prop) (action : Eval α) : Prop :=
  ∀ m : Machine, m.store.Obeys d →
    (runIn m action).2.store.Obeys d ∧ EndsProperly property (runIn m action).1

/-- The values of a list may occur. -/
def AllObey (d : Discipline) (values : List Value) : Prop :=
  ∀ v ∈ values, v.Obeys d

/-- A statement ends with a value that may occur. -/
def EndObeys (d : Discipline) (completion : Completion) : Prop :=
  completion.value.Obeys d

section Steps

variable {α β : Type} {d : Discipline} {property : α → Prop} {property' : β → Prop}

/-- Returning what has the property. -/
theorem keeps_pure {a : α} (h : property a) : Keeps d property (pure a) :=
  fun _ hm => ⟨hm, h⟩

/-- Raising a fault that a program can end in. -/
theorem keeps_throw {fault : Fault} (h : fault.IsProper) : Keeps d property (throw fault) :=
  fun _ hm => ⟨hm, h⟩

/-- Failing for a cause that lies with the program. -/
theorem keeps_fail {cause : EvalError.Cause} (h : ¬cause.IsFallThrough) :
    Keeps d property (fail cause) :=
  keeps_throw h

/-- Taking over the result of an operation on values. -/
theorem keeps_ofResult {result : Except EvalError.Cause Value}
    (hok : ∀ v, result = .ok v → v.Obeys d)
    (herror : ∀ cause, result = .error cause → ¬cause.IsFallThrough) :
    Keeps d (Value.Obeys d) (ofResult result) := by
  cases result with
  | ok v => exact keeps_pure (hok v rfl)
  | error cause => exact keeps_fail (herror cause rfl)

/-- The second of two computations starts with what the first one gives. -/
theorem Keeps.bind {x : Eval α} {f : α → Eval β} (hx : Keeps d property x)
    (hf : ∀ a, property a → Keeps d property' (f a)) : Keeps d property' (x >>= f) := by
  intro m hm
  obtain ⟨hstore, hend⟩ := hx m hm
  rw [runIn_bind]
  match hrun : runIn m x with
  | (.ok a, m') =>
    rw [hrun] at hstore hend
    exact hf a hend m' hstore
  | (.error fault, m') =>
    rw [hrun] at hstore hend
    exact ⟨hstore, hend⟩

/-- Placing an error changes its line only. -/
theorem EndsProperly.placed {r : Except Fault α} (h : EndsProperly property r)
    (line : Option Int) : EndsProperly property (placed line r) := by
  match r with
  | .ok a => exact h
  | .error (.error e) => exact h
  | .error .exhausted => exact h

/-- Reporting exhaustion gives an error of the program. -/
theorem EndsProperly.reported {r : Except Fault α} (h : EndsProperly property r) (line : Int) :
    EndsProperly property (reported line r) := by
  match r with
  | .ok a => exact h
  | .error (.error e) => exact h
  | .error .exhausted => exact id

/-- Placing the errors of a computation. -/
theorem Keeps.placedAt {action : Eval α} (h : Keeps d property action) (line : Option Int) :
    Keeps d property (placedAt line action) := by
  intro m hm
  rw [runIn_placedAt]
  exact ⟨(h m hm).1, (h m hm).2.placed line⟩

/-- A computation for the members of a list. The values are as many as the members. -/
theorem keeps_mapM {f : α → Eval Value} (xs : List α)
    (hf : ∀ x ∈ xs, Keeps d (Value.Obeys d) (f x)) :
    Keeps d (fun values => values.length = xs.length ∧ AllObey d values) (xs.mapM f) := by
  induction xs with
  | nil => exact keeps_pure ⟨rfl, List.forall_mem_nil _⟩
  | cons x xs ih =>
    rw [List.mapM_cons]
    refine (hf x (List.mem_cons_self ..)).bind fun v hv => ?_
    refine (ih fun y hy => hf y (List.mem_cons_of_mem x hy)).bind fun vs hvs => ?_
    refine keeps_pure ⟨?_, List.forall_mem_cons.mpr ⟨hv, hvs.2⟩⟩
    rw [List.length_cons, List.length_cons, hvs.1]

/-- A computation for the members of a list without results. -/
theorem keeps_forM {f : α → Eval PUnit} (xs : List α)
    (hf : ∀ x ∈ xs, Keeps d (fun _ => True) (f x)) : Keeps d (fun _ => True) (xs.forM f) := by
  induction xs with
  | nil => exact keeps_pure trivial
  | cons x xs ih =>
    change Keeps d _ (f x >>= fun _ => xs.forM f)
    refine (hf x (List.mem_cons_self ..)).bind fun _ _ => ?_
    exact ih fun y hy => hf y (List.mem_cons_of_mem x hy)

/-- Looking up a name. -/
theorem keeps_lookup {table : BuiltinTable} (htable : table.Obeys d) (name : String)
    (frame : FrameId) : Keeps d (Value.Obeys d) (lookup table name frame) := by
  have hfound : Keeps d (fun found => ∀ v ∈ found, Value.Obeys d v) (valueOf? name frame) := by
    intro m hm
    rw [runIn_valueOf?]
    exact ⟨hm, fun v hv => hm.get? hv⟩
  refine hfound.bind fun found hvalue => ?_
  match found with
  | some v => exact keeps_pure (hvalue v rfl)
  | none =>
    match hbuiltin : table.find? name with
    | some b => exact keeps_pure (htable name b hbuiltin)
    | none => exact keeps_fail id

/-- Binding a name to a value that may occur. -/
theorem keeps_assign (frame : FrameId) (name : String) {value : Value} (hvalue : value.Obeys d) :
    Keeps d (fun _ => True) (assign frame name value) := by
  intro m hm
  rw [runIn_assign]
  exact ⟨hm.set frame name hvalue, trivial⟩

/-- Making a frame. -/
theorem keeps_enclose (parent : FrameId) : Keeps d (fun _ => True) (enclose parent) := by
  intro m hm
  rw [runIn_enclose]
  exact ⟨hm.push (some parent), trivial⟩

/-- Making a closure of a body that obeys the discipline. -/
theorem keeps_closure (params : List Ident) {body : Ast.Block} (hbody : body.Obeys d) (line : Int)
    (frame : FrameId) : Keeps d (Value.Obeys d) (closure params body line frame) := by
  intro m hm
  rw [runIn_closure]
  exact ⟨hm, hbody⟩

/-- Displaying a value. -/
theorem keeps_displayed (levels : Nat) (value : Value) :
    Keeps d (fun _ => True) (displayed levels value) := by
  rw [displayed]
  split
  · exact keeps_pure trivial
  · exact keeps_throw trivial

/-- Writing text. -/
theorem keeps_write (text : String) : Keeps d (fun _ => True) (write text) := by
  intro m hm
  rw [runIn_write]
  exact ⟨hm, trivial⟩

/-- Statements one after the other. -/
theorem keeps_statementsAfter {execute : Ast.Stmt → Eval Completion} (ss : List Ast.Stmt)
    (h : ∀ s ∈ ss, Keeps d (EndObeys d) (execute s)) {last : Completion}
    (hlast : EndObeys d last) : Keeps d (EndObeys d) (statementsAfter last execute ss) := by
  induction ss generalizing last with
  | nil => exact keeps_pure hlast
  | cons s ss ih =>
    rw [statementsAfter]
    refine (h s (List.mem_cons_self ..)).bind fun completion hend => ?_
    cases completion with
    | normal value => exact ih (fun t ht => h t (List.mem_cons_of_mem s ht)) hend
    | returning value => exact keeps_pure hend

/-- Lists of statements. -/
theorem keeps_statements {execute : Ast.Stmt → Eval Completion} {ss : List Ast.Stmt}
    (h : ∀ s ∈ ss, Keeps d (EndObeys d) (execute s)) :
    Keeps d (EndObeys d) (statements execute ss) :=
  keeps_statementsAfter ss h trivial

/-- The value that a list of statements ends with. -/
theorem keeps_statements_value {execute : Ast.Stmt → Eval Completion} {ss : List Ast.Stmt}
    (h : ∀ s ∈ ss, Keeps d (EndObeys d) (execute s)) :
    Keeps d (Value.Obeys d) (do return (← statements execute ss).value) :=
  (keeps_statements h).bind fun _ hend => keeps_pure hend

/-- Branches. -/
theorem keeps_branch {evaluate : Ast.Expr → Eval Value} {execute : Ast.Stmt → Eval Completion}
    {condition : Ast.Expr} {consequence : Ast.Block} {alternative : Option Ast.Block}
    (hcondition : Keeps d (Value.Obeys d) (evaluate condition))
    (hconsequence : ∀ s ∈ consequence.statements, Keeps d (EndObeys d) (execute s))
    (halternative : ∀ b ∈ alternative, ∀ s ∈ b.statements, Keeps d (EndObeys d) (execute s)) :
    Keeps d (EndObeys d) (branch evaluate execute condition consequence alternative) := by
  refine hcondition.bind fun value _ => ?_
  split
  · exact keeps_statements hconsequence
  · match alternative with
    | some b => exact keeps_statements (halternative b rfl)
    | none => exact keeps_pure trivial

/-- Binding parameters to arguments that may occur. -/
theorem keeps_bindParams (frame : FrameId) (params : List Ident) {args : List Value}
    (hargs : AllObey d args) : Keeps d (fun _ => True) (bindParams frame params args) := by
  induction params generalizing args with
  | nil => exact keeps_pure trivial
  | cons param params ih =>
    cases args with
    | nil => exact keeps_pure trivial
    | cons arg args =>
      obtain ⟨harg, hrest⟩ := List.forall_mem_cons.mp hargs
      exact (keeps_assign frame param.name harg).bind fun _ _ => ih hrest

/-- Entering a call with arguments that may occur. -/
theorem keeps_enter (captured : FrameId) (params : List Ident) {args : List Value}
    (hargs : AllObey d args) : Keeps d (fun _ => True) (enter captured params args) := by
  refine (keeps_enclose captured).bind fun frame _ => ?_
  exact (keeps_bindParams frame params hargs).bind fun _ _ => keeps_pure trivial

/-- The elements of an argument that may occur. -/
theorem keeps_expectArray (name : String) {value : Value} (hvalue : value.Obeys d) :
    Keeps d (fun elements => d.length elements.length ∧ AllObey d elements)
      (expectArray name value) := by
  cases value with
  | array elements => exact keeps_pure ⟨hvalue.1, Value.obeyList_iff.mp hvalue.2⟩
  | _ => exact keeps_fail id

/-- An argument that may occur and is a function. -/
theorem keeps_expectCallable (name : String) {value : Value} (hvalue : value.Obeys d) :
    Keeps d (Value.Obeys d) (expectCallable name value) := by
  cases value with
  | closure params body captured => exact keeps_pure hvalue
  | builtin b => exact keeps_pure hvalue
  | _ => exact keeps_fail id

/-- Builtins with arguments that may occur. -/
theorem keeps_applyBuiltin {depth : Nat} {call : Value → List Value → Eval Value}
    (hcall : ∀ function args, Value.Obeys d function → AllObey d args →
      Keeps d (Value.Obeys d) (call function args)) {b : Builtin} (hb : d.builtin b)
    {args : List Value} (hargs : AllObey d args) :
    Keeps d (Value.Obeys d) (applyBuiltin depth call b args) := by
  cases b with
  | len =>
    match args with
    | [target] =>
      have htarget : target.Obeys d := hargs target (by simp)
      refine (keeps_expectArray "len" htarget).bind fun elements helements => ?_
      exact keeps_pure (d.integer_length _ helements.1)
    | [] => exact keeps_fail id
    | first :: second :: rest => exact keeps_fail id
  | map =>
    match args with
    | [target, function] =>
      have htarget : target.Obeys d := hargs target (by simp)
      have hfunction : function.Obeys d := hargs function (by simp)
      refine (keeps_expectArray "map" htarget).bind fun elements helements => ?_
      refine (keeps_expectCallable "map" hfunction).bind fun callable hcallable => ?_
      have hcalls := keeps_mapM (f := fun e => call callable [e]) elements fun e he =>
        hcall callable [e] hcallable (List.forall_mem_singleton.mpr (helements.2 e he))
      refine hcalls.bind fun values hvalues => keeps_pure ⟨?_, Value.obeyList_iff.mpr hvalues.2⟩
      rw [hvalues.1]
      exact helements.1
    | [] => exact keeps_fail id
    | [only] => exact keeps_fail id
    | first :: second :: third :: rest => exact keeps_fail id
  | puts =>
    refine (keeps_forM args fun arg _ => ?_).bind fun _ _ => keeps_pure trivial
    exact (keeps_displayed depth arg).bind fun text _ => keeps_write _
  | argCount name => exact keeps_pure (d.integer_argCount name hb _)

end Steps

/-- Evaluation at a depth keeps the discipline. -/
structure KeepsAt (d : Discipline) (table : BuiltinTable) (depth : Nat) : Prop where
  expr : ∀ frame {e : Ast.Expr}, e.Obeys d → Keeps d (Value.Obeys d) (expr table depth frame e)
  stmt : ∀ frame {s : Ast.Stmt}, s.Obeys d → Keeps d (EndObeys d) (stmt table depth frame s)
  apply : ∀ line {function args}, Value.Obeys d function → AllObey d args →
    Keeps d (Value.Obeys d) (apply table depth line function args)

section Depth

variable {d : Discipline} {table : BuiltinTable} {depth : Nat}

/-- Lists of expressions keep the discipline. -/
theorem KeepsAt.list (h : KeepsAt d table depth) (frame : FrameId) {es : List Ast.Expr}
    (hes : Ast.ObeyList d es) :
    Keeps d (fun values => values.length = es.length ∧ AllObey d values)
      (es.mapM (Eval.expr table depth frame)) :=
  keeps_mapM es fun e he => h.expr frame (Ast.obeyList_iff.mp hes e he)

/-- The statements of a block keep the discipline. -/
theorem KeepsAt.block (h : KeepsAt d table depth) (frame : FrameId) {b : Ast.Block}
    (hb : b.Obeys d) :
    ∀ s ∈ b.statements, Keeps d (EndObeys d) (Eval.stmt table depth frame s) :=
  fun s hs => h.stmt frame (Ast.Block.obeys_iff.mp hb s hs)

/-- An `if` keeps the discipline. -/
theorem KeepsAt.branch (h : KeepsAt d table depth) (frame : FrameId) {condition : Ast.Expr}
    {consequence : Ast.Block} {alternative : Option Ast.Block} {line : Int}
    (he : (Ast.Expr.cond condition consequence alternative line).Obeys d) :
    Keeps d (EndObeys d) (Eval.branch (Eval.expr table depth frame) (Eval.stmt table depth frame)
      condition consequence alternative) := by
  obtain ⟨hcondition, hconsequence, halternative⟩ := he.cond
  exact keeps_branch (h.expr frame hcondition) (h.block frame hconsequence)
    fun b hb => h.block frame (halternative b hb)

/-- One more level of expressions keeps the discipline. -/
theorem KeepsAt.expr_succ (h : KeepsAt d table depth) (htable : table.Obeys d) (frame : FrameId)
    {e : Ast.Expr} (he : e.Obeys d) :
    Keeps d (Value.Obeys d) (Eval.expr table (depth + 1) frame e) := by
  rw [Eval.expr.eq_def]
  refine Keeps.placedAt ?_ _
  match e with
  | .ident name line => exact keeps_lookup htable name frame
  | .int value line => exact keeps_pure he
  | .bool value line => exact keeps_pure trivial
  | .unary (.known op) operand line =>
    have hoperand : operand.Obeys d := he
    refine (h.expr frame hoperand).bind fun value _ => ?_
    exact keeps_ofResult (fun _ => Value.obeys_unary) fun _ => Value.not_isFallThrough_unary
  | .binary (.known op) left right line =>
    refine (h.expr frame he.1).bind fun value _ => ?_
    refine (h.expr frame he.2).bind fun value' _ => ?_
    exact keeps_ofResult (fun _ => Value.obeys_binary) fun _ => Value.not_isFallThrough_binary
  | .function params body line => exact keeps_closure params he line frame
  | .call callee args line =>
    refine (h.expr frame he.1).bind fun function hfunction => ?_
    refine (h.list frame he.2).bind fun values hvalues => ?_
    exact h.apply (some line) hfunction hvalues.2
  | .array elements line =>
    refine (h.list frame he.2).bind fun values hvalues => ?_
    refine keeps_pure ⟨?_, Value.obeyList_iff.mpr hvalues.2⟩
    rw [hvalues.1]
    exact he.1
  | .index array index line =>
    refine (h.expr frame he.1).bind fun value hvalue => ?_
    refine (h.expr frame he.2).bind fun value' _ => ?_
    exact keeps_ofResult (fun _ => hvalue.element) fun _ => Value.not_isFallThrough_element
  | .cond condition consequence alternative line =>
    refine (h.branch frame he).bind fun completion hend => ?_
    cases completion with
    | normal value => exact keeps_pure hend
    | returning value => exact keeps_fail id

/-- One more level of statements keeps the discipline. -/
theorem KeepsAt.stmt_succ (h : KeepsAt d table depth) (frame : FrameId) {s : Ast.Stmt}
    (hs : s.Obeys d) : Keeps d (EndObeys d) (Eval.stmt table (depth + 1) frame s) := by
  rw [Eval.stmt.eq_def]
  refine Keeps.placedAt ?_ _
  match s with
  | .var target value line =>
    refine (h.expr frame hs).bind fun v hv => ?_
    exact (keeps_assign frame target.name hv).bind fun _ _ => keeps_pure trivial
  | .ret value line => exact (h.expr frame hs).bind fun v hv => keeps_pure hv
  | .expr value line =>
    have hplain : Keeps d (EndObeys d)
        (do return Completion.normal (← Eval.expr table depth frame value)) :=
      (h.expr frame hs).bind fun v hv => keeps_pure hv
    cases value with
    | cond condition consequence alternative l => exact h.branch frame hs
    | _ => exact hplain
  | .block body => exact keeps_statements (h.block frame hs)

/-- One more level of calls keeps the discipline. -/
theorem KeepsAt.apply_succ (h : KeepsAt d table depth) (line : Option Int) {function : Value}
    {args : List Value} (hfunction : function.Obeys d) (hargs : AllObey d args) :
    Keeps d (Value.Obeys d) (Eval.apply table (depth + 1) line function args) := by
  rw [Eval.apply.eq_def]
  refine Keeps.placedAt ?_ _
  cases function with
  | closure params body captured =>
    change Keeps d _ (if args.length ≠ params.length then _ else _)
    split
    · exact keeps_fail id
    · refine (keeps_enclose captured).bind fun frame _ => ?_
      refine (keeps_bindParams frame params hargs).bind fun _ _ => ?_
      exact keeps_statements_value (h.block frame hfunction)
  | builtin b =>
    exact keeps_applyBuiltin (fun f as hf has => h.apply none hf has) hfunction hargs
  | _ => exact keeps_fail id

/-- At every depth evaluation keeps the discipline. -/
theorem keepsAt (htable : table.Obeys d) (depth : Nat) : KeepsAt d table depth := by
  induction depth with
  | zero => exact ⟨fun _ _ _ => keeps_throw trivial, fun _ _ _ => keeps_throw trivial,
      fun _ _ _ _ _ => keeps_throw trivial⟩
  | succ depth ih => exact ⟨ih.expr_succ htable, ih.stmt_succ, ih.apply_succ⟩

/-- A computation that has succeeded leaves what it has to leave. -/
theorem Keeps.of_ok {α : Type} {property : α → Prop} {action : Eval α} (h : Keeps d property action)
    {m m' : Machine} {a : α} (hm : m.store.Obeys d) (hrun : runIn m action = (.ok a, m')) :
    m'.store.Obeys d ∧ property a := by
  have hkept := h m hm
  rw [hrun] at hkept
  exact hkept

end Depth

end Eval

/-- The tree, the function and the arguments of the task may occur. -/
def Task.Obeys (d : Discipline) : Task → Prop
  | .expr _ e => e.Obeys d
  | .stmt _ s => s.Obeys d
  | .apply _ function args => function.Obeys d ∧ Eval.AllObey d args

/-- The parts of an `if` that is a task may occur. -/
theorem Task.IsCond.obeys {d : Discipline} {t : Task} {frame : FrameId} {condition : Ast.Expr}
    {consequence : Ast.Block} {alternative : Option Ast.Block}
    (h : t.IsCond frame condition consequence alternative) (ht : t.Obeys d) :
    condition.Obeys d ∧ consequence.Obeys d ∧ ∀ b ∈ alternative, b.Obeys d := by
  cases h with
  | expr => exact Ast.Expr.Obeys.cond ht
  | stmt => exact Ast.Expr.Obeys.cond ht

/-- The block that an `if` goes on with may occur. -/
theorem Selects.obeys {d : Discipline} {value : Value} {consequence body : Ast.Block}
    {alternative : Option Ast.Block} (h : Selects value consequence alternative body)
    (hconsequence : consequence.Obeys d) (halternative : ∀ b ∈ alternative, b.Obeys d) :
    body.Obeys d := by
  unfold Selects at h
  split at h
  · exact h ▸ hconsequence
  · exact halternative body h

namespace Eval

section Course

variable {d : Discipline} {table : BuiltinTable} {depth : Nat} {m m' : Machine}

/-- Tasks keep the discipline. -/
theorem KeepsAt.task (h : KeepsAt d table depth) {t : Task} (ht : t.Obeys d) :
    Keeps d (Value.Obeys d) (t.run table depth) := by
  cases t with
  | expr frame e => exact h.expr frame ht
  | stmt frame s => exact (h.stmt frame ht).bind fun completion hend => keeps_pure hend
  | apply line function args => exact h.apply line ht.1 ht.2

/-- When the turn of an expression comes, the discipline has been kept. -/
theorem TurnOfExpr.obeys {frame : FrameId} {es : List Ast.Expr} {e : Ast.Expr}
    (hturn : TurnOfExpr table depth frame es m e m') (h : KeepsAt d table depth)
    (hm : m.store.Obeys d) (hes : Ast.ObeyList d es) : m'.store.Obeys d ∧ e.Obeys d := by
  obtain ⟨before, after, values, rfl, hrun⟩ := hturn
  have hall := Ast.obeyList_iff.mp hes
  have hbefore : Ast.ObeyList d before :=
    Ast.obeyList_iff.mpr fun e' he' => hall e' (List.mem_append_left _ he')
  exact ⟨((h.list frame hbefore).of_ok hm hrun).1, hall e (by simp)⟩

/-- When the turn of a statement comes, the discipline has been kept. -/
theorem TurnOfStmt.obeys {frame : FrameId} {ss : List Ast.Stmt} {s : Ast.Stmt}
    (hturn : TurnOfStmt table depth frame ss m s m') (h : KeepsAt d table depth)
    (hm : m.store.Obeys d) (hss : ∀ s ∈ ss, s.Obeys d) : m'.store.Obeys d ∧ s.Obeys d := by
  obtain ⟨before, after, value, rfl, hrun⟩ := hturn
  have hbefore : ∀ s' ∈ before, Keeps d (EndObeys d) (stmt table depth frame s') :=
    fun s' hs' => h.stmt frame (hss s' (List.mem_append_left _ hs'))
  exact ⟨((keeps_statements hbefore).of_ok hm hrun).1, hss s (by simp)⟩

/-- A task that obeys the discipline begins only tasks that do, in states that do. -/
theorem Begins.obeys {t t' : Task} (hbegins : Begins table depth t m t' m')
    (h : KeepsAt d table depth) (hm : m.store.Obeys d) (ht : t.Obeys d) :
    m'.store.Obeys d ∧ t'.Obeys d := by
  cases hbegins with
  | operand _ _ op e line =>
    cases op with
    | known op => exact ⟨hm, ht⟩
    | unknown symbol => exact ht.elim
  | left _ _ op l r line =>
    cases op with
    | known op => exact ⟨hm, ht.1⟩
    | unknown symbol => exact ht.elim
  | right op r line hleft =>
    cases op with
    | known op => exact ⟨((h.expr _ ht.1).of_ok hm hleft).1, ht.2⟩
    | unknown symbol => exact ht.elim
  | callee => exact ⟨hm, ht.1⟩
  | argument line hcallee hturn =>
    exact hturn.obeys h ((h.expr _ ht.1).of_ok hm hcallee).1 ht.2
  | call line hcallee hargs =>
    obtain ⟨hm₁, hfunction⟩ := (h.expr _ ht.1).of_ok hm hcallee
    obtain ⟨hm₂, -, hvalues⟩ := (h.list _ ht.2).of_ok hm₁ hargs
    exact ⟨hm₂, hfunction, hvalues⟩
  | element line hturn => exact hturn.obeys h hm ht.2
  | array => exact ⟨hm, ht.1⟩
  | index index line harray => exact ⟨((h.expr _ ht.1).of_ok hm harray).1, ht.2⟩
  | condition _ hcond => exact ⟨hm, (hcond.obeys ht).1⟩
  | branch hcond hcondition hselects hturn =>
    obtain ⟨hobeys, hconsequence, halternative⟩ := hcond.obeys ht
    have hbody := hselects.obeys hconsequence halternative
    exact hturn.obeys h ((h.expr _ hobeys).of_ok hm hcondition).1 (Ast.Block.obeys_iff.mp hbody)
  | assigned => exact ⟨hm, ht⟩
  | returned => exact ⟨hm, ht⟩
  | standing => exact ⟨hm, ht⟩
  | inBlock hturn => exact hturn.obeys h hm (Ast.Block.obeys_iff.mp ht)
  | body line _ henter hturn =>
    have hm₁ := ((keeps_enter _ _ ht.2).of_ok hm henter).1
    exact hturn.obeys h hm₁ (Ast.Block.obeys_iff.mp ht.1)
  | @mapped _ _ line before after values element function _ hbefore =>
    obtain ⟨harray, hfunction⟩ := List.forall_mem_cons.mp ht.2
    have hfunction : function.Obeys d := List.forall_mem_singleton.mp hfunction
    have helements := Value.obeyList_iff.mp harray.2
    have hcalls := keeps_mapM (f := fun e => apply table depth none function [e]) before fun e he =>
      h.apply none hfunction
        (List.forall_mem_singleton.mpr (helements e (List.mem_append_left _ he)))
    refine ⟨(hcalls.of_ok hm hbefore).1, hfunction, ?_⟩
    exact List.forall_mem_singleton.mpr (helements element (by simp))

/-- A task that obeys the discipline passes only through tasks that do, in states that do. -/
theorem Passes.obeys (htable : table.Obeys d) {depth' : Nat} {t t' : Task}
    (hpasses : Passes table depth t m depth' t' m') (hm : m.store.Obeys d) (ht : t.Obeys d) :
    m'.store.Obeys d ∧ t'.Obeys d := by
  induction hpasses with
  | itself depth t m => exact ⟨hm, ht⟩
  | @through depth depth' t t₁ t' m m₁ m' hbegins _ ih =>
    obtain ⟨hm₁, ht₁⟩ := hbegins.obeys (keepsAt htable depth) hm ht
    exact ih hm₁ ht₁

/-- The running of a program that obeys the discipline passes only through tasks that do, in states
that do. -/
theorem InCourse.obeys (htable : table.Obeys d) {frame : FrameId} {p : Ast.Program} {depth' : Nat}
    {t : Task} (hcourse : InCourse table depth frame p m depth' t m') (hm : m.store.Obeys d)
    (hp : Ast.ObeyStatements d p.statements) : m'.store.Obeys d ∧ t.Obeys d := by
  obtain ⟨s, m₁, hturn, hpasses⟩ := hcourse
  obtain ⟨hm₁, hs⟩ := hturn.obeys (keepsAt htable depth) hm (Ast.obeyStatements_iff.mp hp)
  exact hpasses.obeys htable hm₁ hs

/-- Running a program keeps the discipline. Running out of depth is an error of the program. -/
theorem keeps_program (htable : table.Obeys d) (depth : Nat) (frame : FrameId) {p : Ast.Program}
    (hp : Ast.ObeyStatements d p.statements) :
    Keeps d (Value.Obeys d) (node table depth frame (.program p)) := by
  intro m hm
  have hstatements : Keeps d (Value.Obeys d)
      (do return (← statements (stmt table depth frame) p.statements).value) :=
    keeps_statements_value fun s hs =>
      (keepsAt htable depth).stmt frame (Ast.obeyStatements_iff.mp hp s hs)
  obtain ⟨hstore, hend⟩ := hstatements m hm
  rw [node, runIn_reportingExhaustion]
  exact ⟨hstore, hend.reported _⟩

end Course

end Eval

end EtherLang
