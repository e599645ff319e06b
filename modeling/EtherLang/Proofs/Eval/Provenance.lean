import EtherLang.Proofs.Eval.Discipline

/-!
# Where the nodes of a run come from

Evaluation makes no nodes. Whatever it evaluates is a part of the program or of the body of a
closure, and the body of a closure is that of a function literal which was evaluated before. So a
property that the parts of a node inherit from it goes from the program, and from the closures that
are there at the start, to everything that a run begins and to all closures that it makes, however
the run ends.
-/

namespace EtherLang

/-- A property of expressions and one of statements which the parts of a node inherit from it. -/
structure Inherited where
  expr : Ast.Expr → Prop
  stmt : Ast.Stmt → Prop
  unary : ∀ {op e line}, expr (.unary op e line) → expr e
  binary : ∀ {op l r line}, expr (.binary op l r line) → expr l ∧ expr r
  function : ∀ {params body line}, expr (.function params body line) → ∀ s ∈ body.statements, stmt s
  call : ∀ {callee args line}, expr (.call callee args line) → expr callee ∧ ∀ e ∈ args, expr e
  array : ∀ {elements line}, expr (.array elements line) → ∀ e ∈ elements, expr e
  index : ∀ {array index line}, expr (.index array index line) → expr array ∧ expr index
  cond : ∀ {condition consequence alternative line},
    expr (.cond condition consequence alternative line) →
    expr condition ∧ (∀ s ∈ consequence.statements, stmt s) ∧
      ∀ b ∈ alternative, ∀ s ∈ b.statements, stmt s
  var : ∀ {target e line}, stmt (.var target e line) → expr e
  ret : ∀ {e line}, stmt (.ret e line) → expr e
  standing : ∀ {e line}, stmt (.expr e line) → expr e
  block : ∀ {body}, stmt (.block body) → ∀ s ∈ body.statements, stmt s

namespace Value

mutual

/-- The bodies of the closures in a value have the property. -/
def Inherits (h : Inherited) : Value → Prop
  | null | int _ | bool _ | builtin _ => True
  | array elements => InheritList h elements
  | closure _ body _ => ∀ s ∈ body.statements, h.stmt s

/-- The bodies of the closures in values have the property. -/
def InheritList (h : Inherited) : List Value → Prop
  | [] => True
  | first :: others => first.Inherits h ∧ InheritList h others

end

variable {h : Inherited} {v w : Value}

/-- Values inherit a property if each of them does. -/
theorem inheritList_iff {values : List Value} :
    InheritList h values ↔ ∀ v ∈ values, v.Inherits h := by
  induction values with
  | nil => simp [InheritList]
  | cons first others ih => rw [InheritList, ih, List.forall_mem_cons]

/-- What an operator with one operand gives holds no closure. -/
theorem inherits_unary {op : Spelled UnaryOp} (hw : unary op v = .ok w) : w.Inherits h := by
  unfold unary at hw
  split at hw <;> cases hw <;> trivial

/-- What integers make holds no closure. -/
theorem inherits_onIntegers {op : BinaryOp} {a b : Int} (hw : op.onIntegers a b = .ok w) :
    w.Inherits h := by
  unfold BinaryOp.onIntegers at hw
  split at hw
  case h_4 => split at hw <;> cases hw; trivial
  all_goals cases hw; trivial

/-- What an operator with two operands gives holds no closure. -/
theorem inherits_binary {op : Spelled BinaryOp} {u : Value} (hu : binary op v w = .ok u) :
    u.Inherits h := by
  rw [binary.eq_def] at hu
  split at hu
  · cases hu
  · split at hu
    · exact inherits_onIntegers hu
    all_goals cases hu <;> trivial

/-- The elements of an array hold no closures but those of the array. -/
theorem Inherits.element {i : Value} (hv : v.Inherits h) (hw : element v i = .ok w) :
    w.Inherits h := by
  unfold Value.element at hw
  split at hw
  · split at hw
    · split at hw
      · cases hw
      · split at hw
        · next value hvalue =>
          cases hw
          exact inheritList_iff.mp hv _ (List.mem_of_getElem? hvalue)
        · cases hw
    · cases hw
  · cases hw

end Value

/-- The bodies of the closures in a store have the property. -/
def Store.Inherits (h : Inherited) (s : Store) : Prop :=
  ∀ id f, s.frame? id = some f → ∀ binding ∈ f.bindings, binding.2.Inherits h

section Store

variable {h : Inherited} {s : Store}

/-- There are no closures in a store without frames. -/
theorem Store.inherits_empty : Store.empty.Inherits h := by
  intro id f hf
  cases hf

/-- A new frame holds no closures. -/
theorem Store.Inherits.push (hs : s.Inherits h) (parent : Option FrameId) :
    (s.push ⟨parent, []⟩).2.Inherits h := by
  intro id f hf
  simp only [Store.push, Store.frame?, Array.getElem?_push] at hf
  split at hf
  · cases hf
    exact List.forall_mem_nil _
  · exact hs id f hf

/-- Binding a value adds its closures. -/
theorem Store.Inherits.set (hs : s.Inherits h) (frame : FrameId) (name : String) {value : Value}
    (hvalue : value.Inherits h) : (s.set frame name value).Inherits h := by
  intro id f hf
  by_cases hid : id = frame
  · subst hid
    rw [frame?_set_self, Option.map_eq_some_iff] at hf
    obtain ⟨old, hold, rfl⟩ := hf
    intro binding hbinding
    obtain rfl | hmem := Frame.mem_insert hbinding
    · exact hvalue
    · exact hs id old hold binding hmem
  · rw [frame?_set_of_ne s hid] at hf
    exact hs id f hf

/-- The closures in what is looked up are closures of the store. -/
theorem Store.Inherits.get? (hs : s.Inherits h) {name : String} {id : FrameId} {value : Value}
    (hvalue : s.get? name id = some value) : value.Inherits h := by
  rw [Store.get?] at hvalue
  split at hvalue
  · cases hvalue
  · next f hf =>
    split at hvalue
    · next found hfound =>
      cases hvalue
      obtain ⟨before, after, hbindings, -⟩ := List.lookup_eq_some_iff.mp hfound
      exact hs id f hf _ (hbindings ▸ List.mem_append_right _ (List.mem_cons_self ..))
    · split at hvalue
      · cases hvalue
      · split at hvalue
        · exact hs.get? hvalue
        · cases hvalue
termination_by id

end Store

namespace Eval

/-- From a state whose closures have the property the computation leaves one whose closures have it,
and what it gives has the property named. -/
def HandsOn {α : Type} (h : Inherited) (property : α → Prop) (action : Eval α) : Prop :=
  ∀ m : Machine, m.store.Inherits h →
    (runIn m action).2.store.Inherits h ∧ ∀ a, (runIn m action).1 = .ok a → property a

/-- The bodies of the closures in the values have the property. -/
def AllInherit (h : Inherited) (values : List Value) : Prop :=
  ∀ v ∈ values, v.Inherits h

/-- The bodies of the closures in what a statement ends with have the property. -/
def EndInherits (h : Inherited) (completion : Completion) : Prop :=
  completion.value.Inherits h

section Steps

variable {α β : Type} {h : Inherited} {property : α → Prop} {property' : β → Prop}

/-- Returning what has the property. -/
theorem handsOn_pure {a : α} (ha : property a) : HandsOn h property (pure a) := by
  intro m hm
  refine ⟨hm, ?_⟩
  rintro _ ⟨⟩
  exact ha

/-- Raising a fault. -/
theorem handsOn_throw (fault : Fault) : HandsOn h property (throw fault) :=
  fun _ hm => ⟨hm, nofun⟩

/-- Failing for a cause. -/
theorem handsOn_fail (cause : EvalError.Cause) : HandsOn h property (fail cause) :=
  handsOn_throw _

/-- Taking over the result of an operation on values. -/
theorem handsOn_ofResult {result : Except EvalError.Cause Value}
    (hok : ∀ v, result = .ok v → v.Inherits h) :
    HandsOn h (Value.Inherits h) (ofResult result) := by
  cases result with
  | ok v => exact handsOn_pure (hok v rfl)
  | error cause => exact handsOn_fail cause

/-- The second of two computations starts with what the first one gives. -/
theorem HandsOn.bind {x : Eval α} {f : α → Eval β} (hx : HandsOn h property x)
    (hf : ∀ a, property a → HandsOn h property' (f a)) : HandsOn h property' (x >>= f) := by
  intro m hm
  obtain ⟨hstore, hend⟩ := hx m hm
  rw [runIn_bind]
  match hrun : runIn m x with
  | (.ok a, m') =>
    rw [hrun] at hstore hend
    exact hf a (hend a rfl) m' hstore
  | (.error fault, m') =>
    rw [hrun] at hstore
    exact ⟨hstore, nofun⟩

/-- Placing the errors of a computation. -/
theorem HandsOn.placedAt {action : Eval α} (haction : HandsOn h property action)
    (line : Option Int) : HandsOn h property (placedAt line action) := by
  intro m hm
  obtain ⟨hstore, hend⟩ := haction m hm
  rw [runIn_placedAt]
  refine ⟨hstore, fun a ha => hend a ?_⟩
  match hresult : (runIn m action).1 with
  | .ok b =>
    rw [hresult] at ha
    exact ha
  | .error (.error e) | .error (.illFormed e) | .error .exhausted =>
    rw [hresult] at ha
    cases ha

/-- A computation that leaves the store alone and gives nothing of interest. -/
theorem handsOn_of_store_eq {action : Eval α}
    (haction : ∀ m, (runIn m action).2.store = m.store) : HandsOn h (fun _ => True) action := by
  intro m hm
  rw [haction m]
  exact ⟨hm, fun _ _ => trivial⟩

/-- A computation for the members of a list. -/
theorem handsOn_mapM {f : α → Eval Value} (xs : List α)
    (hf : ∀ x ∈ xs, HandsOn h (Value.Inherits h) (f x)) :
    HandsOn h (AllInherit h) (xs.mapM f) := by
  induction xs with
  | nil => exact handsOn_pure (List.forall_mem_nil _)
  | cons x xs ih =>
    rw [List.mapM_cons]
    refine (hf x (List.mem_cons_self ..)).bind fun v hv => ?_
    refine (ih fun y hy => hf y (List.mem_cons_of_mem x hy)).bind fun vs hvs => ?_
    exact handsOn_pure (List.forall_mem_cons.mpr ⟨hv, hvs⟩)

/-- A computation for the members of a list without results. -/
theorem handsOn_forM {f : α → Eval PUnit} (xs : List α)
    (hf : ∀ x ∈ xs, HandsOn h (fun _ => True) (f x)) : HandsOn h (fun _ => True) (xs.forM f) := by
  induction xs with
  | nil => exact handsOn_pure trivial
  | cons x xs ih =>
    change HandsOn h _ (f x >>= fun _ => xs.forM f)
    refine (hf x (List.mem_cons_self ..)).bind fun _ _ => ?_
    exact ih fun y hy => hf y (List.mem_cons_of_mem x hy)

/-- Looking up a name. -/
theorem handsOn_lookup (table : BuiltinTable) (name : String) (frame : FrameId) :
    HandsOn h (Value.Inherits h) (lookup table name frame) := by
  have hfound : HandsOn h (fun found => ∀ v ∈ found, Value.Inherits h v)
      (valueOf? name frame) := by
    intro m hm
    rw [runIn_valueOf?]
    refine ⟨hm, ?_⟩
    rintro _ ⟨⟩ v hv
    exact hm.get? hv
  refine hfound.bind fun found hvalue => ?_
  match found with
  | some v => exact handsOn_pure (hvalue v rfl)
  | none =>
    cases table.find? name with
    | some b => exact handsOn_pure trivial
    | none => exact handsOn_fail _

/-- Binding a name. -/
theorem handsOn_assign (frame : FrameId) (name : String) {value : Value}
    (hvalue : value.Inherits h) : HandsOn h (fun _ => True) (assign frame name value) := by
  intro m hm
  rw [runIn_assign]
  exact ⟨hm.set frame name hvalue, fun _ _ => trivial⟩

/-- Making a frame. -/
theorem handsOn_enclose (parent : FrameId) : HandsOn h (fun _ => True) (enclose parent) := by
  intro m hm
  rw [runIn_enclose]
  exact ⟨hm.push (some parent), fun _ _ => trivial⟩

/-- Making a closure of a body that has the property. -/
theorem handsOn_closure (params : List Ident) {body : Ast.Block}
    (hbody : ∀ s ∈ body.statements, h.stmt s) (line : Int) (frame : FrameId) :
    HandsOn h (Value.Inherits h) (closure params body line frame) := by
  intro m hm
  rw [runIn_closure]
  refine ⟨hm, ?_⟩
  rintro _ ⟨⟩
  exact hbody

/-- Displaying a value. -/
theorem handsOn_displayed (levels : Nat) (value : Value) :
    HandsOn h (fun _ => True) (displayed levels value) := by
  rw [displayed]
  split
  · exact handsOn_pure trivial
  · exact handsOn_throw _

/-- Statements one after the other. -/
theorem handsOn_statementsAfter {execute : Ast.Stmt → Eval Completion} (ss : List Ast.Stmt)
    (hss : ∀ s ∈ ss, HandsOn h (EndInherits h) (execute s)) {last : Completion}
    (hlast : EndInherits h last) : HandsOn h (EndInherits h) (statementsAfter last execute ss) := by
  induction ss generalizing last with
  | nil => exact handsOn_pure hlast
  | cons s ss ih =>
    rw [statementsAfter]
    refine (hss s (List.mem_cons_self ..)).bind fun completion hend => ?_
    cases completion with
    | normal value => exact ih (fun t ht => hss t (List.mem_cons_of_mem s ht)) hend
    | returning value => exact handsOn_pure hend

/-- Lists of statements. -/
theorem handsOn_statements {execute : Ast.Stmt → Eval Completion} {ss : List Ast.Stmt}
    (hss : ∀ s ∈ ss, HandsOn h (EndInherits h) (execute s)) :
    HandsOn h (EndInherits h) (statements execute ss) :=
  handsOn_statementsAfter ss hss trivial

/-- Branches. -/
theorem handsOn_branch {evaluate : Ast.Expr → Eval Value} {execute : Ast.Stmt → Eval Completion}
    {condition : Ast.Expr} {consequence : Ast.Block} {alternative : Option Ast.Block}
    (hcondition : HandsOn h (Value.Inherits h) (evaluate condition))
    (hconsequence : ∀ s ∈ consequence.statements, HandsOn h (EndInherits h) (execute s))
    (halternative : ∀ b ∈ alternative, ∀ s ∈ b.statements,
      HandsOn h (EndInherits h) (execute s)) :
    HandsOn h (EndInherits h) (branch evaluate execute condition consequence alternative) := by
  refine hcondition.bind fun value _ => ?_
  split
  · exact handsOn_statements hconsequence
  · match alternative with
    | some b => exact handsOn_statements (halternative b rfl)
    | none => exact handsOn_pure trivial

/-- Binding parameters. -/
theorem handsOn_bindParams (frame : FrameId) (params : List Ident) {args : List Value}
    (hargs : AllInherit h args) : HandsOn h (fun _ => True) (bindParams frame params args) := by
  induction params generalizing args with
  | nil => exact handsOn_pure trivial
  | cons param params ih =>
    cases args with
    | nil => exact handsOn_pure trivial
    | cons arg args =>
      obtain ⟨harg, hrest⟩ := List.forall_mem_cons.mp hargs
      exact (handsOn_assign frame param.name harg).bind fun _ _ => ih hrest

/-- Entering a call. -/
theorem handsOn_enter (captured : FrameId) (params : List Ident) {args : List Value}
    (hargs : AllInherit h args) : HandsOn h (fun _ => True) (enter captured params args) := by
  refine (handsOn_enclose captured).bind fun frame _ => ?_
  exact (handsOn_bindParams frame params hargs).bind fun _ _ => handsOn_pure trivial

/-- The elements of an argument. -/
theorem handsOn_expectArray (name : String) {value : Value} (hvalue : value.Inherits h) :
    HandsOn h (AllInherit h) (expectArray name value) := by
  cases value with
  | array elements => exact handsOn_pure (Value.inheritList_iff.mp hvalue)
  | _ => exact handsOn_fail _

/-- An argument that is a function. -/
theorem handsOn_expectCallable (name : String) {value : Value} (hvalue : value.Inherits h) :
    HandsOn h (Value.Inherits h) (expectCallable name value) := by
  cases value with
  | closure params body captured => exact handsOn_pure hvalue
  | builtin b => exact handsOn_pure hvalue
  | _ => exact handsOn_fail _

/-- Builtins. -/
theorem handsOn_applyBuiltin {depth : Nat} {call : Value → List Value → Eval Value}
    (hcall : ∀ function args, Value.Inherits h function → AllInherit h args →
      HandsOn h (Value.Inherits h) (call function args)) (b : Builtin) {args : List Value}
    (hargs : AllInherit h args) :
    HandsOn h (Value.Inherits h) (applyBuiltin depth call b args) := by
  cases b with
  | len =>
    match args with
    | [target] =>
      have htarget : target.Inherits h := hargs target (by simp)
      exact (handsOn_expectArray "len" htarget).bind fun _ _ => handsOn_pure trivial
    | [] | _ :: _ :: _ => exact handsOn_fail _
  | map =>
    match args with
    | [target, function] =>
      have htarget : target.Inherits h := hargs target (by simp)
      have hfunction : function.Inherits h := hargs function (by simp)
      refine (handsOn_expectArray "map" htarget).bind fun elements helements => ?_
      refine (handsOn_expectCallable "map" hfunction).bind fun callable hcallable => ?_
      refine (handsOn_mapM elements fun e he => ?_).bind fun values hvalues => ?_
      · exact hcall callable [e] hcallable (List.forall_mem_singleton.mpr (helements e he))
      · exact handsOn_pure (Value.inheritList_iff.mpr hvalues)
    | [] | [_] | _ :: _ :: _ :: _ => exact handsOn_fail _
  | puts =>
    refine (handsOn_forM args fun arg _ => ?_).bind fun _ _ => handsOn_pure trivial
    exact (handsOn_displayed depth arg).bind fun _ _ => handsOn_of_store_eq fun _ => rfl
  | argCount name => exact handsOn_pure trivial

end Steps

/-- Evaluation at a depth hands the property on. -/
structure HandsOnAt (h : Inherited) (table : BuiltinTable) (depth : Nat) : Prop where
  expr : ∀ frame {e}, h.expr e → HandsOn h (Value.Inherits h) (expr table depth frame e)
  stmt : ∀ frame {s}, h.stmt s → HandsOn h (EndInherits h) (stmt table depth frame s)
  apply : ∀ line {function args}, Value.Inherits h function → AllInherit h args →
    HandsOn h (Value.Inherits h) (apply table depth line function args)

section Depth

variable {h : Inherited} {table : BuiltinTable} {depth : Nat}

/-- Lists of expressions hand the property on. -/
theorem HandsOnAt.list (ih : HandsOnAt h table depth) (frame : FrameId) {es : List Ast.Expr}
    (hes : ∀ e ∈ es, h.expr e) :
    HandsOn h (AllInherit h) (es.mapM (Eval.expr table depth frame)) :=
  handsOn_mapM es fun e he => ih.expr frame (hes e he)

/-- An `if` hands the property on. -/
theorem HandsOnAt.branch (ih : HandsOnAt h table depth) (frame : FrameId) {condition : Ast.Expr}
    {consequence : Ast.Block} {alternative : Option Ast.Block} {line : Int}
    (he : h.expr (.cond condition consequence alternative line)) :
    HandsOn h (EndInherits h) (Eval.branch (Eval.expr table depth frame)
      (Eval.stmt table depth frame) condition consequence alternative) := by
  obtain ⟨hcondition, hconsequence, halternative⟩ := h.cond he
  exact handsOn_branch (ih.expr frame hcondition) (fun s hs => ih.stmt frame (hconsequence s hs))
    fun b hb s hs => ih.stmt frame (halternative b hb s hs)

/-- One more level of expressions hands the property on. -/
theorem HandsOnAt.expr_succ (ih : HandsOnAt h table depth) (frame : FrameId) {e : Ast.Expr}
    (he : h.expr e) : HandsOn h (Value.Inherits h) (Eval.expr table (depth + 1) frame e) := by
  rw [Eval.expr.eq_def]
  refine HandsOn.placedAt ?_ _
  cases e with
  | ident name line => exact handsOn_lookup table name frame
  | int value line | bool value line => exact handsOn_pure trivial
  | unary op operand line =>
    refine (ih.expr frame (h.unary he)).bind fun value _ => ?_
    exact handsOn_ofResult fun _ => Value.inherits_unary
  | binary op left right line =>
    refine (ih.expr frame (h.binary he).1).bind fun value _ => ?_
    refine (ih.expr frame (h.binary he).2).bind fun value' _ => ?_
    exact handsOn_ofResult fun _ => Value.inherits_binary
  | function params body line => exact handsOn_closure params (h.function he) line frame
  | call callee args line =>
    refine (ih.expr frame (h.call he).1).bind fun function hfunction => ?_
    refine (ih.list frame (h.call he).2).bind fun values hvalues => ?_
    exact ih.apply (some line) hfunction hvalues
  | array elements line =>
    refine (ih.list frame (h.array he)).bind fun values hvalues => ?_
    exact handsOn_pure (Value.inheritList_iff.mpr hvalues)
  | index array index line =>
    refine (ih.expr frame (h.index he).1).bind fun value hvalue => ?_
    refine (ih.expr frame (h.index he).2).bind fun value' _ => ?_
    exact handsOn_ofResult fun _ => hvalue.element
  | cond condition consequence alternative line =>
    refine (ih.branch frame he).bind fun completion hend => ?_
    cases completion with
    | normal value => exact handsOn_pure hend
    | returning value => exact handsOn_fail _
  | misplaced _ | foreign => exact handsOn_throw _

/-- One more level of statements hands the property on. -/
theorem HandsOnAt.stmt_succ (ih : HandsOnAt h table depth) (frame : FrameId) {s : Ast.Stmt}
    (hs : h.stmt s) : HandsOn h (EndInherits h) (Eval.stmt table (depth + 1) frame s) := by
  rw [Eval.stmt.eq_def]
  refine HandsOn.placedAt ?_ _
  cases s with
  | var target value line =>
    refine (ih.expr frame (h.var hs)).bind fun v hv => ?_
    exact (handsOn_assign frame target.name hv).bind fun _ _ => handsOn_pure trivial
  | ret value line => exact (ih.expr frame (h.ret hs)).bind fun v hv => handsOn_pure hv
  | expr value line =>
    have hvalue := h.standing hs
    have hplain : HandsOn h (EndInherits h)
        (do return Completion.normal (← Eval.expr table depth frame value)) :=
      (ih.expr frame hvalue).bind fun v hv => handsOn_pure hv
    cases value with
    | cond condition consequence alternative l => exact ih.branch frame hvalue
    | _ => exact hplain
  | block body => exact handsOn_statements fun s hmem => ih.stmt frame (h.block hs s hmem)
  | misplaced _ | program _ => exact handsOn_throw _

/-- One more level of calls hands the property on. -/
theorem HandsOnAt.apply_succ (ih : HandsOnAt h table depth) (line : Option Int) {function : Value}
    {args : List Value} (hfunction : function.Inherits h) (hargs : AllInherit h args) :
    HandsOn h (Value.Inherits h) (Eval.apply table (depth + 1) line function args) := by
  rw [Eval.apply.eq_def]
  refine HandsOn.placedAt ?_ _
  cases function with
  | closure params body captured =>
    change HandsOn h _ (if args.length ≠ params.length then _ else _)
    split
    · exact handsOn_fail _
    · refine (handsOn_enclose captured).bind fun frame _ => ?_
      refine (handsOn_bindParams frame params hargs).bind fun _ _ => ?_
      refine (handsOn_statements fun s hs => ih.stmt frame (hfunction s hs)).bind fun _ hend => ?_
      exact handsOn_pure hend
  | builtin b => exact handsOn_applyBuiltin (fun f as hf has => ih.apply none hf has) b hargs
  | _ => exact handsOn_fail _

/-- At every depth evaluation hands the property on. -/
theorem handsOnAt (h : Inherited) (table : BuiltinTable) (depth : Nat) :
    HandsOnAt h table depth := by
  induction depth with
  | zero => exact ⟨fun _ _ _ => handsOn_throw _, fun _ _ _ => handsOn_throw _,
      fun _ _ _ _ _ => handsOn_throw _⟩
  | succ depth ih => exact ⟨ih.expr_succ, ih.stmt_succ, ih.apply_succ⟩

/-- A computation that has succeeded leaves what it has to leave. -/
theorem HandsOn.of_ok {α : Type} {property : α → Prop} {action : Eval α}
    (haction : HandsOn h property action) {m m' : Machine} {a : α} (hm : m.store.Inherits h)
    (hrun : runIn m action = (.ok a, m')) : m'.store.Inherits h ∧ property a := by
  have hkept := haction m hm
  rw [hrun] at hkept
  exact ⟨hkept.1, hkept.2 a rfl⟩

end Depth

end Eval

/-- The node of the task, or the closures of its function and arguments, have the property. -/
def Task.Inherits (h : Inherited) : Task → Prop
  | .expr _ e => h.expr e
  | .stmt _ s => h.stmt s
  | .apply _ function args => function.Inherits h ∧ Eval.AllInherit h args

/-- The parts of an `if` that is a task. -/
theorem Task.IsCond.inherits {h : Inherited} {t : Task} {frame : FrameId} {condition : Ast.Expr}
    {consequence : Ast.Block} {alternative : Option Ast.Block}
    (hcond : t.IsCond frame condition consequence alternative) (ht : t.Inherits h) :
    h.expr condition ∧ (∀ s ∈ consequence.statements, h.stmt s) ∧
      ∀ b ∈ alternative, ∀ s ∈ b.statements, h.stmt s := by
  cases hcond with
  | expr => exact h.cond ht
  | stmt => exact h.cond (h.standing ht)

/-- The block that an `if` goes on with. -/
theorem Selects.inherits {h : Inherited} {value : Value} {consequence body : Ast.Block}
    {alternative : Option Ast.Block} (hselects : Selects value consequence alternative body)
    (hconsequence : ∀ s ∈ consequence.statements, h.stmt s)
    (halternative : ∀ b ∈ alternative, ∀ s ∈ b.statements, h.stmt s) :
    ∀ s ∈ body.statements, h.stmt s := by
  unfold Selects at hselects
  split at hselects
  · exact hselects ▸ hconsequence
  · exact halternative body hselects

namespace Eval

section Course

variable {h : Inherited} {table : BuiltinTable} {depth : Nat} {m m' : Machine}

/-- When the turn of an expression comes, the property has been handed on. -/
theorem TurnOfExpr.inherits {frame : FrameId} {es : List Ast.Expr} {e : Ast.Expr}
    (hturn : TurnOfExpr table depth frame es m e m') (hm : m.store.Inherits h)
    (hes : ∀ e ∈ es, h.expr e) : m'.store.Inherits h ∧ h.expr e := by
  obtain ⟨before, after, values, rfl, hrun⟩ := hturn
  have hbefore : ∀ e' ∈ before, h.expr e' := fun e' he' => hes e' (List.mem_append_left _ he')
  have hlist := (handsOnAt h table depth).list frame hbefore
  exact ⟨(hlist.of_ok hm hrun).1, hes e (by simp)⟩

/-- When the turn of a statement comes, the property has been handed on. -/
theorem TurnOfStmt.inherits {frame : FrameId} {ss : List Ast.Stmt} {s : Ast.Stmt}
    (hturn : TurnOfStmt table depth frame ss m s m') (hm : m.store.Inherits h)
    (hss : ∀ s ∈ ss, h.stmt s) : m'.store.Inherits h ∧ h.stmt s := by
  obtain ⟨before, after, value, rfl, hrun⟩ := hturn
  have hbefore : ∀ s' ∈ before, HandsOn h (EndInherits h) (stmt table depth frame s') :=
    fun s' hs' => (handsOnAt h table depth).stmt frame (hss s' (List.mem_append_left _ hs'))
  exact ⟨((handsOn_statements hbefore).of_ok hm hrun).1, hss s (by simp)⟩

/-- A task hands the property on to the tasks that it begins. -/
theorem Begins.inherits {t t' : Task} (hbegins : Begins table depth t m t' m')
    (hm : m.store.Inherits h) (ht : t.Inherits h) : m'.store.Inherits h ∧ t'.Inherits h := by
  have hat := handsOnAt h table depth
  cases hbegins with
  | operand => exact ⟨hm, h.unary ht⟩
  | left => exact ⟨hm, (h.binary ht).1⟩
  | right op r line hleft =>
    exact ⟨((hat.expr _ (h.binary ht).1).of_ok hm hleft).1, (h.binary ht).2⟩
  | callee => exact ⟨hm, (h.call ht).1⟩
  | argument line hcallee hturn =>
    exact hturn.inherits ((hat.expr _ (h.call ht).1).of_ok hm hcallee).1 (h.call ht).2
  | call line hcallee hargs =>
    obtain ⟨hm₁, hfunction⟩ := (hat.expr _ (h.call ht).1).of_ok hm hcallee
    obtain ⟨hm₂, hvalues⟩ := (hat.list _ (h.call ht).2).of_ok hm₁ hargs
    exact ⟨hm₂, hfunction, hvalues⟩
  | element line hturn => exact hturn.inherits hm (h.array ht)
  | array => exact ⟨hm, (h.index ht).1⟩
  | index index line harray =>
    exact ⟨((hat.expr _ (h.index ht).1).of_ok hm harray).1, (h.index ht).2⟩
  | condition _ hcond => exact ⟨hm, (hcond.inherits ht).1⟩
  | branch hcond hcondition hselects hturn =>
    obtain ⟨hinherits, hconsequence, halternative⟩ := hcond.inherits ht
    exact hturn.inherits ((hat.expr _ hinherits).of_ok hm hcondition).1
      (hselects.inherits hconsequence halternative)
  | assigned => exact ⟨hm, h.var ht⟩
  | returned => exact ⟨hm, h.ret ht⟩
  | standing => exact ⟨hm, h.standing ht⟩
  | inBlock hturn => exact hturn.inherits hm (h.block ht)
  | body line _ henter hturn =>
    exact hturn.inherits ((handsOn_enter _ _ ht.2).of_ok hm henter).1 ht.1
  | @mapped _ _ line before after values element function _ hbefore =>
    obtain ⟨harray, hfunction⟩ := List.forall_mem_cons.mp ht.2
    have hfunction : function.Inherits h := List.forall_mem_singleton.mp hfunction
    have helements := Value.inheritList_iff.mp harray
    have hcalls := handsOn_mapM before fun e he => hat.apply none hfunction
      (List.forall_mem_singleton.mpr (helements e (List.mem_append_left _ he)))
    refine ⟨(hcalls.of_ok hm hbefore).1, hfunction, ?_⟩
    exact List.forall_mem_singleton.mpr (helements element (by simp))

end Course

end Eval

end EtherLang
