import EtherLang.Proofs.Eval.Running

/-!
# What evaluation writes

Evaluation in a frame changes no other frame that is there, and in its own frame only the names that
the evaluated tree declares outside of functions. Each step of evaluation is given the names that it
may write. A step that goes down to a subtree may write less than the whole, and a call may write
nothing at all: it works in a frame of its own, which was not there before. This holds however the
evaluation ends.
-/

namespace EtherLang

namespace Ast

mutual

/-- The targets of the declarations in an expression outside of functions. -/
def Expr.declared : Expr → List String
  | .ident _ _ | .int _ _ | .bool _ _ | .function _ _ _ | .foreign => []
  | .unary _ operand _ => operand.declared
  | .binary _ left right _ => left.declared ++ right.declared
  | .call callee args _ => callee.declared ++ declaredList args
  | .array elements _ => declaredList elements
  | .index array index _ => array.declared ++ index.declared
  | .cond condition consequence none _ => condition.declared ++ consequence.declared
  | .cond condition consequence (some alternative) _ =>
    condition.declared ++ (consequence.declared ++ alternative.declared)
  | .misplaced statement => statement.declared

/-- The targets of the declarations in expressions outside of functions. -/
def declaredList : List Expr → List String
  | [] => []
  | first :: others => first.declared ++ declaredList others

/-- The targets of the declarations in a statement outside of functions. -/
def Stmt.declared : Stmt → List String
  | .var target value _ => target.name :: value.declared
  | .ret value _ | .expr value _ => value.declared
  | .block body => body.declared
  | .misplaced expression => expression.declared
  | .program statements => declaredStatements statements

/-- The targets of the declarations in a block outside of functions. -/
def Block.declared : Block → List String
  | .mk statements _ => declaredStatements statements

/-- The targets of the declarations in statements outside of functions. -/
def declaredStatements : List Stmt → List String
  | [] => []
  | first :: others => first.declared ++ declaredStatements others

end

/-- The targets of the declarations in a node outside of functions. -/
def Node.declared : Node → List String
  | .program p => declaredStatements p.statements
  | .stmt s => s.declared
  | .expr e => e.declared

/-- What a member of a list of expressions declares, the list declares. -/
theorem declared_subset_list {e : Expr} {es : List Expr} (he : e ∈ es) :
    e.declared ⊆ declaredList es := by
  induction es with
  | nil => cases he
  | cons first others ih =>
    rw [declaredList]
    obtain rfl | he := List.mem_cons.mp he
    · exact List.subset_append_left _ _
    · exact List.subset_append_of_subset_right _ (ih he)

/-- What a member of a list of statements declares, the list declares. -/
theorem declared_subset_statements {s : Stmt} {ss : List Stmt} (hs : s ∈ ss) :
    s.declared ⊆ declaredStatements ss := by
  induction ss with
  | nil => cases hs
  | cons first others ih =>
    rw [declaredStatements]
    obtain rfl | hs := List.mem_cons.mp hs
    · exact List.subset_append_left _ _
    · exact List.subset_append_of_subset_right _ (ih hs)

end Ast

namespace Store

/-- Every frame of the first store is in the second one, with the same parent, and differs there
only in the names that may change. A frame in which no name may change is the same. -/
def UnchangedExcept (may : FrameId → String → Prop) (s s' : Store) : Prop :=
  ∀ id f, s.frame? id = some f → ∃ f', s'.frame? id = some f' ∧ f'.parent = f.parent ∧
    (∀ name, ¬may id name → f'.get? name = f.get? name) ∧ ((∀ name, ¬may id name) → f' = f)

section UnchangedExcept

variable {may : FrameId → String → Prop} {s s₁ s₂ : Store}

/-- A store is unchanged from itself. -/
theorem UnchangedExcept.refl (may : FrameId → String → Prop) (s : Store) :
    s.UnchangedExcept may s :=
  fun _ f hf => ⟨f, hf, rfl, fun _ _ => rfl, fun _ => rfl⟩

/-- Changes one after the other change what each of them may change. -/
theorem UnchangedExcept.trans (h₁ : s.UnchangedExcept may s₁) (h₂ : s₁.UnchangedExcept may s₂) :
    s.UnchangedExcept may s₂ := by
  intro id f hf
  obtain ⟨f₁, hf₁, hparent₁, hnames₁, hsame₁⟩ := h₁ id f hf
  obtain ⟨f₂, hf₂, hparent₂, hnames₂, hsame₂⟩ := h₂ id f₁ hf₁
  refine ⟨f₂, hf₂, hparent₂.trans hparent₁, ?_, ?_⟩
  · intro name hname
    exact (hnames₂ name hname).trans (hnames₁ name hname)
  · intro hnone
    exact (hsame₂ hnone).trans (hsame₁ hnone)

/-- What changes less may change more. -/
theorem UnchangedExcept.mono {may' : FrameId → String → Prop} (h : s.UnchangedExcept may s₁)
    (hmay : ∀ id name, may id name → may' id name) : s.UnchangedExcept may' s₁ := by
  intro id f hf
  obtain ⟨f', hf', hparent, hnames, hsame⟩ := h id f hf
  refine ⟨f', hf', hparent, ?_, ?_⟩
  · intro name hname
    exact hnames name fun h => hname (hmay id name h)
  · intro hnone
    exact hsame fun name h => hnone name (hmay id name h)

/-- Binding a name changes that name in that frame. -/
theorem unchangedExcept_set {frame : FrameId} {name : String} (hmay : may frame name)
    (value : Value) : s.UnchangedExcept may (s.set frame name value) := by
  intro id f hf
  by_cases hid : id = frame
  · subst hid
    refine ⟨f.set name value, ?_, rfl, ?_, ?_⟩
    · rw [frame?_set_self, hf]
      rfl
    · intro other hother
      refine Frame.get?_set_of_ne f ?_ value
      rintro rfl
      exact hother hmay
    · intro hnone
      exact absurd hmay (hnone name)
  · refine ⟨f, ?_, rfl, fun _ _ => rfl, fun _ => rfl⟩
    rw [frame?_set_of_ne s hid, hf]

/-- A frame that is found has a number below the size of the store. -/
theorem lt_size_of_frame? {id : FrameId} {f : Frame} (hf : s.frame? id = some f) :
    id < s.frames.size :=
  (Array.getElem?_eq_some_iff.mp hf).1

/-- Changes to a new frame change nothing that was there. -/
theorem UnchangedExcept.of_push {f : Frame}
    (h : (s.push f).2.UnchangedExcept (fun id _ => id = (s.push f).1) s₁) :
    s.UnchangedExcept (fun _ _ => False) s₁ := by
  intro id f' hf'
  have hlt : id < s.frames.size := lt_size_of_frame? hf'
  have hold : (s.push f).2.frame? id = some f' := by
    rw [frame?_push_of_lt s f hlt, hf']
  obtain ⟨f'', hf'', -, -, hsame⟩ := h id f' hold
  have heq : f'' = f' := hsame fun _ => Nat.ne_of_lt hlt
  subst heq
  exact ⟨f'', hf'', rfl, fun _ _ => rfl, fun _ => rfl⟩

end UnchangedExcept

end Store

namespace Eval

/-- Whatever the state and however it ends, the computation changes only what may change. -/
def Respects {α : Type} (may : FrameId → String → Prop) (action : Eval α) : Prop :=
  ∀ m : Machine, m.store.UnchangedExcept may (runIn m action).2.store

section Steps

variable {α β : Type} {may : FrameId → String → Prop}

/-- A computation that leaves the store changes nothing. -/
theorem respects_of_store_eq {action : Eval α} (h : ∀ m, (runIn m action).2.store = m.store) :
    Respects may action := by
  intro m
  rw [h m]
  exact .refl may m.store

/-- Returning a value changes nothing. -/
theorem respects_pure (a : α) : Respects may (pure a : Eval α) :=
  respects_of_store_eq fun m => by rw [runIn_pure]

/-- Raising a fault changes nothing. -/
theorem respects_throw (fault : Fault) : Respects may (throw fault : Eval α) :=
  respects_of_store_eq fun m => by rw [runIn_throw]

/-- Failing changes nothing. -/
theorem respects_fail (cause : EvalError.Cause) : Respects may (fail cause : Eval α) :=
  respects_of_store_eq fun m => by rw [runIn_fail]

/-- An operation on values changes nothing. -/
theorem respects_ofResult (result : Except EvalError.Cause α) :
    Respects may (ofResult result) :=
  respects_of_store_eq fun m => by rw [runIn_ofResult]

/-- Computations one after the other change what each of them changes. -/
theorem Respects.bind {x : Eval α} {f : α → Eval β} (hx : Respects may x)
    (hf : ∀ a, Respects may (f a)) : Respects may (x >>= f) := by
  intro m
  have hfirst := hx m
  rw [runIn_bind]
  match h : runIn m x with
  | (.ok a, m') =>
    rw [h] at hfirst
    exact hfirst.trans (hf a m')
  | (.error fault, m') =>
    rw [h] at hfirst
    exact hfirst

/-- Placing errors changes nothing more. -/
theorem Respects.placedAt {action : Eval α} (h : Respects may action) (line : Option Int) :
    Respects may (placedAt line action) := by
  intro m
  rw [runIn_placedAt]
  exact h m

/-- A computation that may change less may change more. -/
theorem Respects.mono {may' : FrameId → String → Prop} {action : Eval α} (h : Respects may action)
    (hmay : ∀ id name, may id name → may' id name) : Respects may' action :=
  fun m => (h m).mono hmay

/-- Applying a computation to every member of a list changes what it changes at the members. -/
theorem respects_mapM {f : α → Eval β} (xs : List α) (hf : ∀ x ∈ xs, Respects may (f x)) :
    Respects may (xs.mapM f) := by
  induction xs with
  | nil => exact respects_pure []
  | cons x xs ih =>
    rw [List.mapM_cons]
    refine (hf x (List.mem_cons_self ..)).bind fun b => ?_
    refine (ih fun y hy => hf y (List.mem_cons_of_mem x hy)).bind fun bs => ?_
    exact respects_pure (b :: bs)

/-- Running a computation for every member of a list changes what it changes at the members. -/
theorem respects_forM {f : α → Eval PUnit} (xs : List α) (hf : ∀ x ∈ xs, Respects may (f x)) :
    Respects may (xs.forM f) := by
  induction xs with
  | nil => exact respects_pure _
  | cons x xs ih =>
    change Respects may (f x >>= fun _ => xs.forM f)
    refine (hf x (List.mem_cons_self ..)).bind fun _ => ?_
    exact ih fun y hy => hf y (List.mem_cons_of_mem x hy)

/-- Looking up a name changes nothing. -/
theorem respects_lookup (table : BuiltinTable) (name : String) (frame : FrameId) :
    Respects may (lookup table name frame) := by
  refine Respects.bind (respects_of_store_eq fun _ => rfl) fun found => ?_
  match found with
  | some value => exact respects_pure value
  | none =>
    match table.find? name with
    | some builtin => exact respects_pure _
    | none => exact respects_fail _

/-- Making a closure changes no frame. -/
theorem respects_closure (params : List Ident) (body : Ast.Block) (line : Int) (frame : FrameId) :
    Respects may (closure params body line frame) :=
  respects_of_store_eq fun _ => rfl

/-- Assigning a variable changes that variable. -/
theorem respects_assign {frame : FrameId} {name : String} (hmay : may frame name)
    (value : Value) : Respects may (assign frame name value) :=
  fun _ => Store.unchangedExcept_set hmay value

/-- Displaying a value changes nothing. -/
theorem respects_displayed (levels : Nat) (value : Value) :
    Respects may (displayed levels value) := by
  unfold displayed
  split
  · exact respects_pure value.display
  · exact respects_throw .exhausted

/-- Executing statements changes what each of them changes. -/
theorem respects_statementsAfter {execute : Ast.Stmt → Eval Completion} (ss : List Ast.Stmt)
    (h : ∀ s ∈ ss, Respects may (execute s)) (last : Completion) :
    Respects may (statementsAfter last execute ss) := by
  induction ss generalizing last with
  | nil => exact respects_pure last
  | cons s ss ih =>
    rw [statementsAfter]
    refine (h s (List.mem_cons_self ..)).bind fun completion => ?_
    cases completion with
    | normal value => exact ih (fun s' hs' => h s' (List.mem_cons_of_mem s hs')) (.normal value)
    | returning value => exact respects_pure _

/-- An `if` changes what its condition and its branches change. -/
theorem respects_branch {evaluate : Ast.Expr → Eval Value} {execute : Ast.Stmt → Eval Completion}
    {condition : Ast.Expr} {consequence : Ast.Block} {alternative : Option Ast.Block}
    (hcondition : Respects may (evaluate condition))
    (hconsequence : ∀ s ∈ consequence.statements, Respects may (execute s))
    (halternative : ∀ b ∈ alternative, ∀ s ∈ b.statements, Respects may (execute s)) :
    Respects may (branch evaluate execute condition consequence alternative) := by
  refine hcondition.bind fun value => ?_
  split
  · exact respects_statementsAfter _ hconsequence _
  · match alternative with
    | some b => exact respects_statementsAfter _ (halternative b rfl) _
    | none => exact respects_pure _

/-- Binding parameters changes the frame they are bound in. -/
theorem respects_bindParams {frame : FrameId} (hmay : ∀ name, may frame name)
    (params : List Ident) (args : List Value) : Respects may (bindParams frame params args) := by
  induction params generalizing args with
  | nil => exact respects_pure ()
  | cons param params ih =>
    cases args with
    | nil => exact respects_pure ()
    | cons arg args =>
      rw [bindParams]
      exact (respects_assign (hmay param.name) arg).bind fun _ => ih args

/-- What works in a new frame changes nothing that was there. -/
theorem respects_enclose (captured : FrameId) {f : FrameId → Eval α}
    (hf : ∀ frame, Respects (fun id _ => id = frame) (f frame)) :
    Respects (fun _ _ => False) (enclose captured >>= f) := by
  intro m
  have hnew := hf (m.store.enclose captured).1 { m with store := (m.store.enclose captured).2 }
  rw [runIn_bind, runIn_enclose]
  exact Store.UnchangedExcept.of_push hnew

/-- A builtin changes what its calls change. -/
theorem respects_applyBuiltin {depth : Nat} {call : Value → List Value → Eval Value}
    (hcall : ∀ function args, Respects may (call function args)) (b : Builtin)
    (args : List Value) : Respects may (applyBuiltin depth call b args) := by
  have harray : ∀ name value, Respects may (expectArray name value) := by
    intro name value
    cases value with
    | array elements => exact respects_pure elements
    | _ => exact respects_fail _
  have hcallable : ∀ name value, Respects may (expectCallable name value) := by
    intro name value
    cases value with
    | closure params body captured => exact respects_pure _
    | builtin b => exact respects_pure _
    | _ => exact respects_fail _
  unfold applyBuiltin
  split
  · exact (harray _ _).bind fun elements => respects_pure _
  · exact respects_fail _
  · refine (harray _ _).bind fun elements => (hcallable _ _).bind fun function => ?_
    refine (respects_mapM elements fun element _ => hcall function [element]).bind fun values => ?_
    exact respects_pure _
  · exact respects_fail _
  · refine (respects_forM args fun arg _ => ?_).bind fun _ => respects_pure _
    refine (respects_displayed depth arg).bind fun text => ?_
    exact respects_of_store_eq fun _ => rfl
  · exact respects_pure _

end Steps

/-- The variables of a frame with the given names. -/
def ownVariables (frame : FrameId) (names : List String) (id : FrameId) (name : String) : Prop :=
  id = frame ∧ name ∈ names

/-- More names make more variables. -/
theorem ownVariables_mono {frame : FrameId} {names names' : List String} (h : names ⊆ names')
    (id : FrameId) (name : String) (hname : ownVariables frame names id name) :
    ownVariables frame names' id name :=
  ⟨hname.1, h hname.2⟩

/-- What evaluation at a depth may change. -/
structure EffectsAt (table : BuiltinTable) (depth : Nat) : Prop where
  expr : ∀ frame e, Respects (ownVariables frame e.declared) (expr table depth frame e)
  stmt : ∀ frame s, Respects (ownVariables frame s.declared) (stmt table depth frame s)
  apply : ∀ line function args,
    Respects (fun _ _ => False) (apply table depth line function args)

section Depth

variable {table : BuiltinTable} {depth : Nat}

/-- An expression may write what a tree around it may write. -/
theorem EffectsAt.expr_of_subset (h : EffectsAt table depth) {frame : FrameId} {e : Ast.Expr}
    {names : List String} (hsub : e.declared ⊆ names) :
    Respects (ownVariables frame names) (Eval.expr table depth frame e) :=
  (h.expr frame e).mono (ownVariables_mono hsub)

/-- Expressions may write what a tree around them may write. -/
theorem EffectsAt.list_of_subset (h : EffectsAt table depth) {frame : FrameId}
    {es : List Ast.Expr} {names : List String} (hsub : Ast.declaredList es ⊆ names) :
    Respects (ownVariables frame names) (es.mapM (Eval.expr table depth frame)) :=
  respects_mapM es fun _ he =>
    h.expr_of_subset (List.Subset.trans (Ast.declared_subset_list he) hsub)

/-- The statements of a block may write what a tree around the block may write. -/
theorem EffectsAt.block_of_subset (h : EffectsAt table depth) {frame : FrameId} {b : Ast.Block}
    {names : List String} (hsub : b.declared ⊆ names) :
    ∀ s ∈ b.statements, Respects (ownVariables frame names) (Eval.stmt table depth frame s) := by
  intro s hs
  obtain ⟨ss, line⟩ := b
  have hdeclared : s.declared ⊆ names :=
    List.Subset.trans (Ast.declared_subset_statements hs) hsub
  exact (h.stmt frame s).mono (ownVariables_mono hdeclared)

/-- A call may write what any tree may write. -/
theorem EffectsAt.apply_of_false (h : EffectsAt table depth) {may : FrameId → String → Prop}
    (line : Option Int) (function : Value) (args : List Value) :
    Respects may (Eval.apply table depth line function args) :=
  (h.apply line function args).mono fun _ _ hfalse => hfalse.elim

/-- The condition and the branches of an `if` write what the `if` declares. -/
theorem EffectsAt.branch (h : EffectsAt table depth) (frame : FrameId) (condition : Ast.Expr)
    (consequence : Ast.Block) (alternative : Option Ast.Block) (line : Int) :
    Respects (ownVariables frame (Ast.Expr.cond condition consequence alternative line).declared)
      (Eval.branch (Eval.expr table depth frame) (Eval.stmt table depth frame) condition
        consequence alternative) := by
  cases alternative with
  | none =>
    rw [Ast.Expr.declared]
    refine respects_branch (h.expr_of_subset ?_) (h.block_of_subset ?_) nofun
    · exact List.subset_append_left _ _
    · exact List.subset_append_right _ _
  | some b =>
    rw [Ast.Expr.declared]
    refine respects_branch (h.expr_of_subset ?_) (h.block_of_subset ?_) ?_
    · exact List.subset_append_left _ _
    · exact List.subset_append_of_subset_right _ (List.subset_append_left _ _)
    · rintro b' ⟨⟩
      refine h.block_of_subset ?_
      exact List.subset_append_of_subset_right _ (List.subset_append_right _ _)

/-- One more level of expressions writes what it declares. -/
theorem EffectsAt.expr_succ (h : EffectsAt table depth) (frame : FrameId) (e : Ast.Expr) :
    Respects (ownVariables frame e.declared) (Eval.expr table (depth + 1) frame e) := by
  rw [Eval.expr.eq_def]
  refine Respects.placedAt ?_ _
  cases e with
  | ident name line => exact respects_lookup table name frame
  | int value line => exact respects_pure _
  | bool value line => exact respects_pure _
  | unary op operand line =>
    rw [Ast.Expr.declared]
    exact (h.expr frame operand).bind fun value => respects_ofResult _
  | binary op left right line =>
    rw [Ast.Expr.declared]
    refine (h.expr_of_subset (List.subset_append_left _ _)).bind fun value => ?_
    refine (h.expr_of_subset (List.subset_append_right _ _)).bind fun value' => ?_
    exact respects_ofResult _
  | function params body line => exact respects_closure params body line frame
  | call callee args line =>
    rw [Ast.Expr.declared]
    refine (h.expr_of_subset (List.subset_append_left _ _)).bind fun function => ?_
    refine (h.list_of_subset (List.subset_append_right _ _)).bind fun values => ?_
    exact h.apply_of_false (some line) function values
  | array elements line =>
    rw [Ast.Expr.declared]
    exact (h.list_of_subset (List.Subset.refl _)).bind fun values => respects_pure _
  | index array index line =>
    rw [Ast.Expr.declared]
    refine (h.expr_of_subset (List.subset_append_left _ _)).bind fun value => ?_
    refine (h.expr_of_subset (List.subset_append_right _ _)).bind fun value' => ?_
    exact respects_ofResult _
  | cond condition consequence alternative line =>
    refine (h.branch frame condition consequence alternative line).bind fun completion => ?_
    cases completion with
    | normal value => exact respects_pure _
    | returning value => exact respects_fail _
  | misplaced statement => exact respects_throw _
  | foreign => exact respects_throw _

/-- One more level of statements writes what it declares. -/
theorem EffectsAt.stmt_succ (h : EffectsAt table depth) (frame : FrameId) (s : Ast.Stmt) :
    Respects (ownVariables frame s.declared) (Eval.stmt table (depth + 1) frame s) := by
  rw [Eval.stmt.eq_def]
  refine Respects.placedAt ?_ _
  cases s with
  | var target value line =>
    rw [Ast.Stmt.declared]
    refine (h.expr_of_subset (List.subset_cons_self _ _)).bind fun v => ?_
    refine (respects_assign ⟨rfl, List.mem_cons_self ..⟩ v).bind fun _ => ?_
    exact respects_pure _
  | ret value line =>
    rw [Ast.Stmt.declared]
    exact (h.expr frame value).bind fun v => respects_pure _
  | expr value line =>
    rw [Ast.Stmt.declared]
    have hplain : Respects (ownVariables frame value.declared)
        (do return Completion.normal (← Eval.expr table depth frame value)) :=
      (h.expr frame value).bind fun v => respects_pure _
    cases value with
    | cond condition consequence alternative l =>
      exact h.branch frame condition consequence alternative l
    | _ => exact hplain
  | block body =>
    rw [Ast.Stmt.declared]
    exact respects_statementsAfter _ (h.block_of_subset (List.Subset.refl _)) _
  | misplaced expression => exact respects_throw _
  | program statements => exact respects_throw _

/-- One more level of calls writes nothing that was there. -/
theorem EffectsAt.apply_succ (h : EffectsAt table depth) (line : Option Int) (function : Value)
    (args : List Value) :
    Respects (fun _ _ => False) (Eval.apply table (depth + 1) line function args) := by
  rw [Eval.apply.eq_def]
  refine Respects.placedAt ?_ _
  cases function with
  | closure params body captured =>
    change Respects _ (if args.length ≠ params.length then _ else _)
    split
    · exact respects_fail _
    · refine respects_enclose captured fun frame => ?_
      refine (respects_bindParams (fun _ => rfl) params args).bind fun _ => ?_
      have hbody : ∀ s ∈ body.statements,
          Respects (fun id _ => id = frame) (Eval.stmt table depth frame s) :=
        fun s _ => (h.stmt frame s).mono fun _ _ hvariable => hvariable.1
      exact (respects_statementsAfter _ hbody _).bind fun completion => respects_pure _
  | builtin b => exact respects_applyBuiltin (fun f as => h.apply_of_false none f as) b args
  | _ => exact respects_fail _

end Depth

/-- At every depth evaluation writes only what the evaluated tree declares, and calls write nothing
that was there. -/
theorem effectsAt (table : BuiltinTable) (depth : Nat) : EffectsAt table depth := by
  induction depth with
  | zero => exact ⟨fun _ _ => respects_throw _, fun _ _ => respects_throw _,
      fun _ _ _ => respects_throw _⟩
  | succ depth ih => exact ⟨ih.expr_succ, ih.stmt_succ, ih.apply_succ⟩

/-- A list of statements writes what it declares. -/
theorem respects_statements (table : BuiltinTable) (depth : Nat) (frame : FrameId)
    (ss : List Ast.Stmt) :
    Respects (ownVariables frame (Ast.declaredStatements ss))
      (statements (stmt table depth frame) ss) :=
  respects_statementsAfter ss (fun s hs => ((effectsAt table depth).stmt frame s).mono
    (ownVariables_mono (Ast.declared_subset_statements hs))) _

/-- A node that is evaluated by itself writes what it declares. -/
theorem respects_node (table : BuiltinTable) (depth : Nat) (frame : FrameId) (n : Ast.Node) :
    Respects (ownVariables frame n.declared) (node table depth frame n) := by
  intro m
  rw [node.eq_def, runIn_reportingExhaustion]
  revert m
  cases n with
  | program p =>
    exact (respects_statements table depth frame p.statements).bind fun _ => respects_pure _
  | stmt s => exact ((effectsAt table depth).stmt frame s).bind fun _ => respects_pure _
  | expr e => exact (effectsAt table depth).expr frame e

end Eval

namespace Store

/-- The second store has all frames of the first one as they are, except for one frame, and that
frame has the same parent and the same values of all names but the listed ones. -/
structure WritesOnly (frame : FrameId) (names : List String) (s s' : Store) : Prop where
  others : ∀ id f, id ≠ frame → s.frame? id = some f → s'.frame? id = some f
  own : ∀ f, s.frame? frame = some f → ∃ f', s'.frame? frame = some f' ∧
    f'.parent = f.parent ∧ ∀ name, name ∉ names → f'.get? name = f.get? name

/-- The second store has all frames of the first one as they are. -/
def Extends (s s' : Store) : Prop :=
  ∀ id f, s.frame? id = some f → s'.frame? id = some f

/-- Changes to some variables of a frame write only that frame and those names. -/
theorem UnchangedExcept.writesOnly {frame : FrameId} {names : List String} {s s' : Store}
    (h : s.UnchangedExcept (Eval.ownVariables frame names) s') : s.WritesOnly frame names s' := by
  constructor
  · intro id f hid hf
    obtain ⟨f', hf', -, -, hsame⟩ := h id f hf
    rw [hf', hsame fun _ hvariable => hid hvariable.1]
  · intro f hf
    obtain ⟨f', hf', hparent, hnames, -⟩ := h frame f hf
    exact ⟨f', hf', hparent, fun name hname => hnames name fun hvariable => hname hvariable.2⟩

/-- A store in which nothing may have changed has all frames as they were. -/
theorem UnchangedExcept.extends {s s' : Store} (h : s.UnchangedExcept (fun _ _ => False) s') :
    s.Extends s' := by
  intro id f hf
  obtain ⟨f', hf', -, -, hsame⟩ := h id f hf
  rw [hf', hsame fun _ hfalse => hfalse]

end Store

namespace Eval

/-- Evaluation in a frame, however it ends, writes only the names that the evaluated tree declares
outside of functions, and only in that frame; a call leaves every frame as it was. -/
theorem evaluation_writesOnly (table : BuiltinTable) (depth : Nat) (frame : FrameId)
    (m : Machine) :
    (∀ e, m.store.WritesOnly frame e.declared (runIn m (expr table depth frame e)).2.store) ∧
      (∀ s, m.store.WritesOnly frame s.declared (runIn m (stmt table depth frame s)).2.store) ∧
      (∀ ss, m.store.WritesOnly frame (Ast.declaredStatements ss)
        (runIn m (statements (stmt table depth frame) ss)).2.store) ∧
      (∀ n, m.store.WritesOnly frame n.declared (runIn m (node table depth frame n)).2.store) ∧
      ∀ line function args,
        m.store.Extends (runIn m (apply table depth line function args)).2.store := by
  have h := effectsAt table depth
  refine ⟨fun e => ?_, fun s => ?_, fun ss => ?_, fun n => ?_, fun line function args => ?_⟩
  · exact (h.expr frame e m).writesOnly
  · exact (h.stmt frame s m).writesOnly
  · exact (respects_statements table depth frame ss m).writesOnly
  · exact (respects_node table depth frame n m).writesOnly
  · exact (h.apply line function args m).extends

end Eval

end EtherLang
