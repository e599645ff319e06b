import Mathlib.Data.List.Forall2
import EtherLang.Proofs.Eval.Running
import EtherLang.Proofs.Surface.Layout

/-!
# Comparing two runs

Two runs of one tree can be compared if it is known which of their frames and which of their states
belong together, and if the few things that evaluation does to a state keep it so: reading and
assigning a variable, making a frame, writing a text and making a closure. Then the runs end alike,
whatever the tree is: with values that differ in the frames of their closures at most, or with the
same fault. What makes no difference to a program, such as the numbers of its frames, a variable
that it never reads or depth that it does not use, is told by such a comparison.
-/

namespace EtherLang

namespace Ast

mutual

/-- The names that an expression reads, those in the bodies of functions included. -/
def Expr.reads : Expr → List String
  | .ident name _ => [name]
  | .int _ _ | .bool _ _ | .foreign => []
  | .unary _ operand _ => operand.reads
  | .binary _ left right _ => left.reads ++ right.reads
  | .function _ body _ => body.reads
  | .call callee args _ => callee.reads ++ readsList args
  | .array elements _ => readsList elements
  | .index array index _ => array.reads ++ index.reads
  | .cond condition consequence none _ => condition.reads ++ consequence.reads
  | .cond condition consequence (some alternative) _ =>
    condition.reads ++ (consequence.reads ++ alternative.reads)
  | .misplaced statement => statement.reads

/-- The names that expressions read. -/
def readsList : List Expr → List String
  | [] => []
  | first :: others => first.reads ++ readsList others

/-- The names that a statement reads. -/
def Stmt.reads : Stmt → List String
  | .var _ value _ | .ret value _ | .expr value _ => value.reads
  | .block body => body.reads
  | .misplaced expression => expression.reads
  | .program statements => readsStatements statements

/-- The names that a block reads. -/
def Block.reads : Block → List String
  | .mk statements _ => readsStatements statements

/-- The names that statements read. -/
def readsStatements : List Stmt → List String
  | [] => []
  | first :: others => first.reads ++ readsStatements others

end

/-- The names that a node reads. -/
def Node.reads : Node → List String
  | .program p => readsStatements p.statements
  | .stmt s => s.reads
  | .expr e => e.reads

/-- The names that expressions read are those that each of them reads. -/
theorem readsList_eq_flatMap (es : List Expr) : readsList es = es.flatMap Expr.reads := by
  induction es with
  | nil => rfl
  | cons first others ih => rw [readsList, ih, List.flatMap_cons]

/-- The names that statements read are those that each of them reads. -/
theorem readsStatements_eq_flatMap (ss : List Stmt) :
    readsStatements ss = ss.flatMap Stmt.reads := by
  induction ss with
  | nil => rfl
  | cons first others ih => rw [readsStatements, ih, List.flatMap_cons]

/-- The names that a block reads are those of its statements. -/
theorem Block.reads_eq (b : Block) : b.reads = readsStatements b.statements := by
  cases b with
  | mk statements line => rfl

end Ast

namespace Value

variable {frames : FrameId → FrameId → Prop} {readable : String → Prop} {v v' w w' : Value}
  {xs ys : List Value}

/-- Values that differ at most in the frames of their closures: these belong together, and the
bodies of the closures read nothing but readable names. -/
inductive Related (frames : FrameId → FrameId → Prop) (readable : String → Prop) :
    Value → Value → Prop
  | null : Related frames readable null null
  | int (n : Int) : Related frames readable (int n) (int n)
  | bool (b : Bool) : Related frames readable (bool b) (bool b)
  | array {xs ys : List Value} :
    List.Forall₂ (Related frames readable) xs ys → Related frames readable (array xs) (array ys)
  | closure {params : List Ident} {body : Ast.Block} {c d : FrameId} :
    frames c d → (∀ name ∈ body.reads, readable name) →
    Related frames readable (closure params body c) (closure params body d)
  | builtin (b : Builtin) : Related frames readable (builtin b) (builtin b)

/-- Related values are of the same kind. -/
theorem Related.kind_eq (h : Related frames readable v w) : v.kind = w.kind := by
  cases h <;> rfl

/-- Related values count as true or not alike. -/
theorem Related.truthy_eq (h : Related frames readable v w) : v.truthy = w.truthy := by
  cases h <;> rfl

mutual

/-- Related values are displayed alike. -/
theorem Related.display_eq {v w : Value} (h : Related frames readable v w) :
    v.display = w.display := by
  match v, w, h with
  | _, _, .null | _, _, .int _ | _, _, .bool _ | _, _, .builtin _ | _, _, .closure _ _ => rfl
  | .array xs, .array ys, .array hxs => rw [display, display, displayList_eq_of_forall₂ hxs]
termination_by structural v

/-- Lists of related values are displayed alike. -/
theorem displayList_eq_of_forall₂ {xs ys : List Value}
    (h : List.Forall₂ (Related frames readable) xs ys) : displayList xs = displayList ys := by
  match xs, ys, h with
  | [], [], .nil => rfl
  | [x], [y], .cons hx .nil => exact hx.display_eq
  | x :: x' :: xs, y :: y' :: ys, .cons hx hxs =>
    change x.display ++ ", " ++ displayList (x' :: xs) = y.display ++ ", " ++ displayList (y' :: ys)
    rw [hx.display_eq, displayList_eq_of_forall₂ hxs]
termination_by structural xs

end

mutual

/-- Related values are nested alike. -/
theorem Related.nesting_eq {v w : Value} (h : Related frames readable v w) :
    v.nesting = w.nesting := by
  match v, w, h with
  | _, _, .null | _, _, .int _ | _, _, .bool _ | _, _, .builtin _ | _, _, .closure _ _ => rfl
  | .array xs, .array ys, .array hxs => rw [nesting, nesting, nestingList_eq_of_forall₂ hxs]
termination_by structural v

/-- Lists of related values are nested alike. -/
theorem nestingList_eq_of_forall₂ {xs ys : List Value}
    (h : List.Forall₂ (Related frames readable) xs ys) : nestingList xs = nestingList ys := by
  match xs, ys, h with
  | [], [], .nil => rfl
  | x :: xs, y :: ys, .cons hx hxs =>
    rw [nestingList, nestingList, hx.nesting_eq, nestingList_eq_of_forall₂ hxs]
termination_by structural xs

end

mutual

/-- Values are the same if the frames that belong together are. -/
theorem Related.eq (hframes : ∀ c d, frames c d → c = d) {v w : Value}
    (h : Related frames readable v w) : v = w := by
  match v, w, h with
  | _, _, .null | _, _, .int _ | _, _, .bool _ | _, _, .builtin _ => rfl
  | _, _, .closure hcd _ => rw [hframes _ _ hcd]
  | .array xs, .array ys, .array hxs => rw [eq_of_forall₂ hframes hxs]
termination_by structural v

/-- Lists of values are the same if the frames that belong together are. -/
theorem eq_of_forall₂ (hframes : ∀ c d, frames c d → c = d) {xs ys : List Value}
    (h : List.Forall₂ (Related frames readable) xs ys) : xs = ys := by
  match xs, ys, h with
  | [], [], .nil => rfl
  | x :: xs, y :: ys, .cons hx hxs => rw [hx.eq hframes, eq_of_forall₂ hframes hxs]
termination_by structural xs

end

/-- The value is a closure with the body and the frame, or it is an array that holds one. -/
inductive Holds (body : Ast.Block) (captured : FrameId) : Value → Prop
  | closure (params : List Ident) : Holds body captured (closure params body captured)
  | array {element : Value} {elements : List Value} :
    element ∈ elements → Holds body captured element → Holds body captured (array elements)

mutual

/-- A value is related to itself if the frames of its closures are and their bodies read nothing but
readable names. -/
theorem related_self {v : Value} (h : ∀ body captured, v.Holds body captured →
      frames captured captured ∧ ∀ name ∈ body.reads, readable name) :
    Related frames readable v v := by
  match v with
  | .null => exact .null
  | .int n => exact .int n
  | .bool b => exact .bool b
  | .builtin b => exact .builtin b
  | .closure params body captured =>
    obtain ⟨hcaptured, hbody⟩ := h body captured (.closure params)
    exact .closure hcaptured hbody
  | .array elements =>
    refine .array (forall₂_related_self fun element helement body captured hholds => ?_)
    exact h body captured (.array helement hholds)
termination_by structural v

/-- So are the members of a list. -/
theorem forall₂_related_self {xs : List Value}
    (h : ∀ x ∈ xs, ∀ body captured, Holds body captured x →
      frames captured captured ∧ ∀ name ∈ body.reads, readable name) :
    List.Forall₂ (Related frames readable) xs xs := by
  match xs with
  | [] => exact .nil
  | x :: xs =>
    rw [List.forall_mem_cons] at h
    exact .cons (related_self h.1) (forall₂_related_self h.2)
termination_by structural xs

end

/-- Results of operations on related values: related values or the same cause of failure. -/
abbrev ResultsRelated (frames : FrameId → FrameId → Prop) (readable : String → Prop) :
    Except EvalError.Cause Value → Except EvalError.Cause Value → Prop :=
  ResultsAlike Eq (Related frames readable)

/-- Operators with one operand do not see frames. -/
theorem Related.unary (h : Related frames readable v w) (op : Spelled UnaryOp) :
    ResultsRelated frames readable (v.unary op) (w.unary op) := by
  cases h <;> cases op with
  | unknown symbol => exact rfl
  | known op => cases op <;> first | exact rfl | exact .bool _ | exact .int _

/-- What integers make holds no frames. -/
theorem resultsRelated_onIntegers (op : BinaryOp) (a b : Int) :
    ResultsRelated frames readable (op.onIntegers a b) (op.onIntegers a b) := by
  cases op with
  | div =>
    rw [BinaryOp.onIntegers]
    cases Integer.quotient? a b with
    | none => exact rfl
    | some q => exact .int q
  | _ => first | exact .int _ | exact .bool _

/-- Operators with two operands do not see frames. -/
theorem Related.binary (h : Related frames readable v w) (h' : Related frames readable v' w')
    (op : Spelled BinaryOp) :
    ResultsRelated frames readable (binary op v v') (binary op w w') := by
  by_cases hkind : v.kind = v'.kind
  · cases h <;> cases h' <;> cases hkind <;> cases op with
    | unknown symbol => exact rfl
    | known op =>
      first
      | exact resultsRelated_onIntegers op _ _
      | cases op <;> first | exact rfl | exact .bool _
  · have hkind' : w.kind ≠ w'.kind := by rwa [← h.kind_eq, ← h'.kind_eq]
    rw [Value.binary.eq_def, Value.binary.eq_def, if_pos hkind, if_pos hkind', h.kind_eq,
      h'.kind_eq]
    exact rfl

/-- Related lists have related members in the same places. -/
theorem rel_getElem?_of_forall₂ (h : List.Forall₂ (Related frames readable) xs ys) (i : Nat) :
    Option.Rel (Related frames readable) xs[i]? ys[i]? := by
  induction h generalizing i with
  | nil => exact .none
  | cons hx _ ih =>
    cases i with
    | zero => exact .some hx
    | succ i => exact ih i

/-- Related arrays have related elements. -/
theorem Related.element (h : Related frames readable v w) (h' : Related frames readable v' w') :
    ResultsRelated frames readable (v.element v') (w.element w') := by
  cases h with
  | @array xs ys hxs =>
    cases h' with
    | int i =>
      simp only [Value.element, ← hxs.length_eq]
      split
      · exact rfl
      · have helements := rel_getElem?_of_forall₂ hxs i.toNat
        generalize xs[i.toNat]? = x, ys[i.toNat]? = y at helements
        cases helements with
        | none => exact rfl
        | some helement => exact helement
    | _ => exact rfl
  | _ => exact rfl

end Value

/-- Which frames and which states of two runs belong together. Whatever evaluation does to states
that belong together, it leaves states that do. -/
structure Comparison where
  /-- Whether the first run may run out of depth where the second one does not. -/
  lenient : Prop
  /-- The names that may be read. -/
  readable : String → Prop
  /-- The frames that belong together. -/
  frames : FrameId → FrameId → Prop
  /-- The states that belong together. -/
  states : Machine → Machine → Prop
  get? : ∀ {a b : Machine} {c d : FrameId} {name : String}, states a b → frames c d →
    readable name →
    Option.Rel (Value.Related frames readable) (a.store.get? name c) (b.store.get? name d)
  set : ∀ {a b : Machine} {c d : FrameId} {v w : Value} (name : String), states a b → frames c d →
    Value.Related frames readable v w →
    states { a with store := a.store.set c name v } { b with store := b.store.set d name w }
  enclose : ∀ {a b : Machine} {c d : FrameId}, states a b → frames c d →
    frames (a.store.enclose c).1 (b.store.enclose d).1 ∧
      states { a with store := (a.store.enclose c).2 } { b with store := (b.store.enclose d).2 }
  write : ∀ {a b : Machine} (text : String), states a b →
    states { a with output := a.output ++ text } { b with output := b.output ++ text }
  closure : ∀ {a b : Machine} {c d : FrameId} (line : Int), states a b → frames c d →
    states { a with closures := (line, (a.store.frame? c).getD ⟨none, []⟩) :: a.closures }
      { b with closures := (line, (b.store.frame? d).getD ⟨none, []⟩) :: b.closures }

namespace Comparison

open Eval

variable {C : Comparison} {α β γ δ : Type}

/-- The values of the two runs that belong together. -/
abbrev Values (C : Comparison) : Value → Value → Prop :=
  Value.Related C.frames C.readable

/-- The ends of statements that belong together. -/
inductive Completions (C : Comparison) : Completion → Completion → Prop
  | normal {v w : Value} : C.Values v w → Completions C (.normal v) (.normal w)
  | returning {v w : Value} : C.Values v w → Completions C (.returning v) (.returning w)

/-- Statements that end alike end with values that belong together. -/
theorem Completions.value {c c' : Completion} (h : C.Completions c c') :
    C.Values c.value c'.value := by
  cases h with
  | normal hvalue => exact hvalue
  | returning hvalue => exact hvalue

/-- Ends of the two runs that belong together: with values that do or with the same fault. -/
inductive Ends (C : Comparison) (values : α → β → Prop) :
    Except Fault α × Machine → Except Fault β × Machine → Prop
  | ok {v : α} {w : β} {a b : Machine} :
    values v w → C.states a b → Ends C values (.ok v, a) (.ok w, b)
  | error {fault : Fault} {a b : Machine} :
    C.states a b → Ends C values (.error fault, a) (.error fault, b)

/-- From states that belong together the two computations come to ends that do, or the first one
runs out of depth, if that may be. -/
def Agree (C : Comparison) (values : α → β → Prop) (x : Eval α) (y : Eval β) : Prop :=
  ∀ a b, C.states a b → C.Ends values (runIn a x) (runIn b y) ∨
    C.lenient ∧ (runIn a x).1 = .error .exhausted

/-- Depths of the two runs that belong together. -/
def Depths (C : Comparison) (depth depth' : Nat) : Prop :=
  depth = depth' ∨ C.lenient ∧ depth ≤ depth'

/-- One level further down the depths still belong together. -/
theorem Depths.of_succ {depth depth' : Nat} (h : C.Depths (depth + 1) depth') :
    ∃ below, depth' = below + 1 ∧ C.Depths depth below := by
  obtain rfl | ⟨hlenient, hle⟩ := h
  · exact ⟨depth, rfl, .inl rfl⟩
  · exact ⟨depth' - 1, by omega, .inr ⟨hlenient, by omega⟩⟩

section Steps

variable {values : α → β → Prop} {values' : γ → δ → Prop}

/-- Values that belong together are returned. -/
theorem agree_pure {v : α} {w : β} (h : values v w) : C.Agree values (pure v) (pure w) :=
  fun _ _ hab => .inl (.ok h hab)

/-- The same fault is raised. -/
theorem agree_throw (fault : Fault) : C.Agree values (throw fault) (throw fault) :=
  fun _ _ hab => .inl (.error hab)

/-- The same error is raised. -/
theorem agree_fail (cause : EvalError.Cause) : C.Agree values (fail cause) (fail cause) :=
  agree_throw _

/-- Results of operations on values are taken over. -/
theorem agree_ofResult {result : Except EvalError.Cause α} {result' : Except EvalError.Cause β}
    (h : ResultsAlike Eq values result result') :
    C.Agree values (ofResult result) (ofResult result') := by
  match result, result' with
  | .ok v, .ok w => exact agree_pure h
  | .error cause, .error cause' =>
    cases h
    exact agree_fail cause

/-- Computations one after the other. -/
theorem Agree.bind {x : Eval α} {y : Eval β} {f : α → Eval γ} {g : β → Eval δ}
    (hxy : C.Agree values x y) (hfg : ∀ v w, values v w → C.Agree values' (f v) (g w)) :
    C.Agree values' (x >>= f) (y >>= g) := by
  intro a b hab
  rw [runIn_bind, runIn_bind]
  match runIn a x, runIn b y, hxy a b hab with
  | _, _, .inl (.ok hvalue hstate) => exact hfg _ _ hvalue _ _ hstate
  | _, _, .inl (.error hstate) => exact .inl (.error hstate)
  | (result, _), _, .inr ⟨hlenient, hresult⟩ =>
    cases hresult
    exact .inr ⟨hlenient, rfl⟩

/-- Errors get the same lines. -/
theorem Agree.placedAt {x : Eval α} {y : Eval β} (h : C.Agree values x y) (line : Option Int) :
    C.Agree values (placedAt line x) (placedAt line y) := by
  intro a b hab
  rw [runIn_placedAt, runIn_placedAt]
  match runIn a x, runIn b y, h a b hab with
  | _, _, .inl (.ok hvalue hstate) => exact .inl (.ok hvalue hstate)
  | (.error fault, _), _, .inl (.error hstate) => cases fault <;> exact .inl (.error hstate)
  | (result, _), _, .inr ⟨hlenient, hresult⟩ =>
    cases hresult
    exact .inr ⟨hlenient, rfl⟩

/-- Where exhaustion is reported, the first run may report it although the second one goes on. -/
theorem Agree.reportingExhaustion {x : Eval α} {y : Eval β} (h : C.Agree values x y) (line : Int)
    {a b : Machine} (hab : C.states a b) :
    C.Ends values (runIn a (reportingExhaustion line x)) (runIn b (reportingExhaustion line y)) ∨
      C.lenient ∧ (runIn a (reportingExhaustion line x)).1 =
        .error (.error ⟨.recursionLimit, some line⟩) := by
  rw [runIn_reportingExhaustion, runIn_reportingExhaustion]
  match runIn a x, runIn b y, h a b hab with
  | _, _, .inl (.ok hvalue hstate) => exact .inl (.ok hvalue hstate)
  | (.error fault, _), _, .inl (.error hstate) => cases fault <;> exact .inl (.error hstate)
  | (result, _), _, .inr ⟨hlenient, hresult⟩ =>
    cases hresult
    exact .inr ⟨hlenient, rfl⟩

/-- Computations for the members of two lists. -/
theorem agree_mapM {k : α → Eval γ} {k' : β → Eval δ} {xs : List α} {ys : List β}
    (hxs : List.Forall₂ values xs ys) (hk : ∀ x y, values x y → C.Agree values' (k x) (k' y)) :
    C.Agree (List.Forall₂ values') (xs.mapM k) (ys.mapM k') := by
  induction hxs with
  | nil => exact agree_pure .nil
  | cons hx _ ih =>
    rw [List.mapM_cons, List.mapM_cons]
    refine (hk _ _ hx).bind fun v w hvalue => ?_
    refine ih.bind fun vs ws hvalues => ?_
    exact agree_pure (.cons hvalue hvalues)

/-- Computations for the members of two lists, without results. -/
theorem agree_forM {k : α → Eval PUnit} {k' : β → Eval PUnit} {xs : List α} {ys : List β}
    (hxs : List.Forall₂ values xs ys) (hk : ∀ x y, values x y → C.Agree Eq (k x) (k' y)) :
    C.Agree Eq (xs.forM k) (ys.forM k') := by
  induction hxs with
  | nil => exact agree_pure rfl
  | cons hx _ ih => exact (hk _ _ hx).bind fun _ _ _ => ih

/-- Values are displayed alike. -/
theorem agree_displayed {levels levels' : Nat} (hlevels : C.Depths levels levels') {v w : Value}
    (h : C.Values v w) : C.Agree Eq (displayed levels v) (displayed levels' w) := by
  rw [displayed, displayed, h.nesting_eq, h.display_eq]
  obtain rfl | ⟨hlenient, hle⟩ := hlevels
  · split
    · exact agree_pure rfl
    · exact agree_throw _
  · by_cases hfits : w.nesting ≤ levels
    · rw [if_pos hfits, if_pos (Nat.le_trans hfits hle)]
      exact agree_pure rfl
    · rw [if_neg hfits]
      exact fun _ _ _ => .inr ⟨hlenient, rfl⟩

/-- The same text is written. -/
theorem agree_write (text : String) : C.Agree Eq (Eval.write text) (Eval.write text) :=
  fun _ _ hab => .inl (.ok rfl (C.write text hab))

/-- Closures are made in frames that belong together. -/
theorem agree_closure {c d : FrameId} (hcd : C.frames c d) (params : List Ident) {body : Ast.Block}
    (hbody : ∀ name ∈ body.reads, C.readable name) (line : Int) :
    C.Agree C.Values (Eval.closure params body line c) (Eval.closure params body line d) :=
  fun _ _ hab => .inl (.ok (.closure hcd hbody) (C.closure line hab hcd))

/-- A readable name has values that belong together. -/
theorem agree_lookup {c d : FrameId} (hcd : C.frames c d) (table : BuiltinTable) {name : String}
    (hname : C.readable name) : C.Agree C.Values (lookup table name c) (lookup table name d) := by
  have hfound : C.Agree (Option.Rel C.Values) (valueOf? name c) (valueOf? name d) :=
    fun _ _ hab => .inl (.ok (C.get? hab hcd hname) hab)
  refine hfound.bind fun found found' hvalues => ?_
  cases hvalues with
  | some hvalue => exact agree_pure hvalue
  | none =>
    match table.find? name with
    | some builtin => exact agree_pure (.builtin builtin)
    | none => exact agree_fail _

/-- Values that belong together are assigned in frames that do. -/
theorem agree_assign {c d : FrameId} (hcd : C.frames c d) (name : String) {v w : Value}
    (h : C.Values v w) : C.Agree Eq (assign c name v) (assign d name w) :=
  fun _ _ hab => .inl (.ok rfl (C.set name hab hcd h))

/-- Frames are made that belong together. -/
theorem agree_enclose {c d : FrameId} (hcd : C.frames c d) :
    C.Agree C.frames (Eval.enclose c) (Eval.enclose d) :=
  fun _ _ hab => .inl (.ok (C.enclose hab hcd).1 (C.enclose hab hcd).2)

/-- Statements one after the other. -/
theorem agree_statementsAfter {execute execute' : Ast.Stmt → Eval Completion} {ss : List Ast.Stmt}
    (h : ∀ s ∈ ss, C.Agree C.Completions (execute s) (execute' s)) {last last' : Completion}
    (hlast : C.Completions last last') :
    C.Agree C.Completions (statementsAfter last execute ss)
      (statementsAfter last' execute' ss) := by
  induction ss generalizing last last' with
  | nil => exact agree_pure hlast
  | cons s ss ih =>
    rw [List.forall_mem_cons] at h
    rw [statementsAfter, statementsAfter]
    refine h.1.bind fun completion completion' hends => ?_
    cases hends with
    | normal hvalue => exact ih h.2 (.normal hvalue)
    | returning hvalue => exact agree_pure (.returning hvalue)

/-- Lists of statements. -/
theorem agree_statements {execute execute' : Ast.Stmt → Eval Completion} {ss : List Ast.Stmt}
    (h : ∀ s ∈ ss, C.Agree C.Completions (execute s) (execute' s)) :
    C.Agree C.Completions (statements execute ss) (statements execute' ss) :=
  agree_statementsAfter h (.normal .null)

/-- Conditions that belong together select the same branch. -/
theorem agree_branch {evaluate evaluate' : Ast.Expr → Eval Value}
    {execute execute' : Ast.Stmt → Eval Completion} {condition : Ast.Expr}
    {consequence : Ast.Block} {alternative : Option Ast.Block}
    (hcondition : C.Agree C.Values (evaluate condition) (evaluate' condition))
    (hconsequence : ∀ s ∈ consequence.statements, C.Agree C.Completions (execute s) (execute' s))
    (halternative : ∀ block ∈ alternative, ∀ s ∈ block.statements,
      C.Agree C.Completions (execute s) (execute' s)) :
    C.Agree C.Completions (branch evaluate execute condition consequence alternative)
      (branch evaluate' execute' condition consequence alternative) := by
  refine hcondition.bind fun v w hvalue => ?_
  rw [hvalue.truthy_eq]
  split
  · exact agree_statements hconsequence
  · match alternative with
    | some block => exact agree_statements (halternative block rfl)
    | none => exact agree_pure (.normal .null)

/-- Parameters are bound to arguments that belong together. -/
theorem agree_bindParams {c d : FrameId} (hcd : C.frames c d) (params : List Ident)
    {args args' : List Value} (hargs : List.Forall₂ C.Values args args') :
    C.Agree Eq (bindParams c params args) (bindParams d params args') := by
  induction params generalizing args args' with
  | nil => exact agree_pure rfl
  | cons param params ih =>
    cases hargs with
    | nil => exact agree_pure rfl
    | cons harg hargs => exact (agree_assign hcd param.name harg).bind fun _ _ _ => ih hargs

/-- Arrays are found where arrays are due. -/
theorem agree_expectArray (name : String) {v w : Value} (h : C.Values v w) :
    C.Agree (List.Forall₂ C.Values) (expectArray name v) (expectArray name w) := by
  cases h with
  | array helements => exact agree_pure helements
  | _ => exact agree_fail _

/-- Functions are found where functions are due. -/
theorem agree_expectCallable (name : String) {v w : Value} (h : C.Values v w) :
    C.Agree C.Values (expectCallable name v) (expectCallable name w) := by
  cases h with
  | closure hcd hbody => exact agree_pure (.closure hcd hbody)
  | builtin b => exact agree_pure (.builtin b)
  | _ => exact agree_fail _

/-- A wrong number of arguments is the same for both runs. -/
theorem agree_builtinArity (name : String) (want : Nat) {args args' : List Value}
    (h : args.length = args'.length) :
    C.Agree values (fail (.builtinArity name want args.length))
      (fail (.builtinArity name want args'.length)) := by
  rw [h]
  exact agree_fail _

/-- Builtins do the same with arguments that belong together. -/
theorem agree_applyBuiltin {depth depth' : Nat} (hdepth : C.Depths depth depth')
    {call call' : Value → List Value → Eval Value}
    (hcall : ∀ {function function' args args'}, C.Values function function' →
      List.Forall₂ C.Values args args' →
      C.Agree C.Values (call function args) (call' function' args'))
    (b : Builtin) {args args' : List Value} (hargs : List.Forall₂ C.Values args args') :
    C.Agree C.Values (applyBuiltin depth call b args) (applyBuiltin depth' call' b args') := by
  have hlength := hargs.length_eq
  cases b with
  | len =>
    match args, args', hargs with
    | [target], [target'], .cons htarget .nil =>
      refine (agree_expectArray "len" htarget).bind fun elements elements' helements => ?_
      rw [helements.length_eq]
      exact agree_pure (.int _)
    | [], [], .nil => exact agree_builtinArity "len" 1 hlength
    | _ :: _ :: _, _ :: _ :: _, .cons _ (.cons _ _) => exact agree_builtinArity "len" 1 hlength
  | map =>
    match args, args', hargs with
    | [target, function], [target', function'], .cons htarget (.cons hfunction .nil) =>
      refine (agree_expectArray "map" htarget).bind fun elements elements' helements => ?_
      refine (agree_expectCallable "map" hfunction).bind fun function function' hfunction => ?_
      refine (agree_mapM helements fun x y hx => hcall hfunction (.cons hx .nil)).bind ?_
      exact fun values values' hvalues => agree_pure (.array hvalues)
    | [], [], .nil => exact agree_builtinArity "map" 2 hlength
    | [_], [_], .cons _ .nil => exact agree_builtinArity "map" 2 hlength
    | _ :: _ :: _ :: _, _ :: _ :: _ :: _, .cons _ (.cons _ (.cons _ _)) =>
      exact agree_builtinArity "map" 2 hlength
  | puts =>
    refine (agree_forM hargs fun arg arg' harg => ?_).bind fun _ _ _ => agree_pure .null
    refine (agree_displayed hdepth harg).bind ?_
    rintro text _ rfl
    exact agree_write _
  | argCount name =>
    rw [applyBuiltin, applyBuiltin, hlength]
    exact agree_pure (.int _)

end Steps

/-- Evaluation at two depths agrees. -/
structure At (C : Comparison) (table : BuiltinTable) (depth depth' : Nat) : Prop where
  expr : ∀ {c d : FrameId} {e : Ast.Expr}, C.frames c d → (∀ name ∈ e.reads, C.readable name) →
    C.Agree C.Values (expr table depth c e) (expr table depth' d e)
  stmt : ∀ {c d : FrameId} {s : Ast.Stmt}, C.frames c d → (∀ name ∈ s.reads, C.readable name) →
    C.Agree C.Completions (stmt table depth c s) (stmt table depth' d s)
  apply : ∀ {function function' : Value} {args args' : List Value} (line : Option Int),
    C.Values function function' → List.Forall₂ C.Values args args' →
    C.Agree C.Values (apply table depth line function args)
      (apply table depth' line function' args')

section Depth

variable {table : BuiltinTable} {depth depth' : Nat} {c d : FrameId}

/-- Lists of expressions. -/
theorem At.list (h : C.At table depth depth') (hcd : C.frames c d) {es : List Ast.Expr}
    (hes : ∀ name ∈ Ast.readsList es, C.readable name) :
    C.Agree (List.Forall₂ C.Values) (es.mapM (Eval.expr table depth c))
      (es.mapM (Eval.expr table depth' d)) := by
  have hsame : List.Forall₂ (fun e e' => e = e' ∧ ∀ name ∈ e.reads, C.readable name) es es := by
    rw [List.forall₂_same]
    intro e he
    refine ⟨rfl, fun name hname => hes name ?_⟩
    rw [Ast.readsList_eq_flatMap]
    exact List.mem_flatMap.mpr ⟨e, he, hname⟩
  refine agree_mapM hsame ?_
  rintro e _ ⟨rfl, he⟩
  exact h.expr hcd he

/-- The statements of a list. -/
theorem At.each (h : C.At table depth depth') (hcd : C.frames c d) {ss : List Ast.Stmt}
    (hss : ∀ name ∈ Ast.readsStatements ss, C.readable name) :
    ∀ s ∈ ss, C.Agree C.Completions (Eval.stmt table depth c s) (Eval.stmt table depth' d s) := by
  intro s hs
  refine h.stmt hcd fun name hname => hss name ?_
  rw [Ast.readsStatements_eq_flatMap]
  exact List.mem_flatMap.mpr ⟨s, hs, hname⟩

/-- The statements of a block. -/
theorem At.block (h : C.At table depth depth') (hcd : C.frames c d) {b : Ast.Block}
    (hb : ∀ name ∈ b.reads, C.readable name) :
    ∀ s ∈ b.statements,
      C.Agree C.Completions (Eval.stmt table depth c s) (Eval.stmt table depth' d s) :=
  h.each hcd (b.reads_eq ▸ hb)

/-- The branches of an `if`. -/
theorem At.branch (h : C.At table depth depth') (hcd : C.frames c d) {condition : Ast.Expr}
    {consequence : Ast.Block} {alternative : Option Ast.Block} {line : Int}
    (hcond : ∀ name ∈ (Ast.Expr.cond condition consequence alternative line).reads,
      C.readable name) :
    C.Agree C.Completions
      (Eval.branch (Eval.expr table depth c) (Eval.stmt table depth c) condition consequence
        alternative)
      (Eval.branch (Eval.expr table depth' d) (Eval.stmt table depth' d) condition consequence
        alternative) := by
  cases alternative with
  | none =>
    rw [Ast.Expr.reads, List.forall_mem_append] at hcond
    exact agree_branch (h.expr hcd hcond.1) (h.block hcd hcond.2) nofun
  | some block =>
    rw [Ast.Expr.reads, List.forall_mem_append, List.forall_mem_append] at hcond
    refine agree_branch (h.expr hcd hcond.1) (h.block hcd hcond.2.1) ?_
    rintro _ ⟨⟩
    exact h.block hcd hcond.2.2

/-- One more level of expressions. -/
theorem At.expr_succ (h : C.At table depth depth') (hcd : C.frames c d) {e : Ast.Expr}
    (he : ∀ name ∈ e.reads, C.readable name) :
    C.Agree C.Values (Eval.expr table (depth + 1) c e) (Eval.expr table (depth' + 1) d e) := by
  rw [Eval.expr.eq_def, Eval.expr.eq_def]
  refine Agree.placedAt ?_ _
  cases e with
  | ident name line => exact agree_lookup hcd table (he name (List.mem_singleton.mpr rfl))
  | int value line => exact agree_pure (.int value)
  | bool value line => exact agree_pure (.bool value)
  | unary op operand line =>
    rw [Ast.Expr.reads] at he
    exact (h.expr hcd he).bind fun v w hvalue => agree_ofResult (hvalue.unary op)
  | binary op left right line =>
    rw [Ast.Expr.reads, List.forall_mem_append] at he
    refine (h.expr hcd he.1).bind fun v w hvalue => ?_
    refine (h.expr hcd he.2).bind fun v' w' hvalue' => ?_
    exact agree_ofResult (hvalue.binary hvalue' op)
  | function params body line => exact agree_closure hcd params he line
  | call callee args line =>
    rw [Ast.Expr.reads, List.forall_mem_append] at he
    refine (h.expr hcd he.1).bind fun function function' hfunction => ?_
    refine (h.list hcd he.2).bind fun values values' hvalues => ?_
    exact h.apply (some line) hfunction hvalues
  | array elements line =>
    exact (h.list hcd he).bind fun values values' hvalues => agree_pure (.array hvalues)
  | index array index line =>
    rw [Ast.Expr.reads, List.forall_mem_append] at he
    refine (h.expr hcd he.1).bind fun v w hvalue => ?_
    refine (h.expr hcd he.2).bind fun v' w' hvalue' => ?_
    exact agree_ofResult (hvalue.element hvalue')
  | cond condition consequence alternative line =>
    refine (h.branch hcd he).bind fun completion completion' hends => ?_
    cases hends with
    | normal hvalue => exact agree_pure hvalue
    | returning hvalue => exact agree_fail _
  | misplaced statement => exact agree_throw _
  | foreign => exact agree_throw _

/-- One more level of statements. -/
theorem At.stmt_succ (h : C.At table depth depth') (hcd : C.frames c d) {s : Ast.Stmt}
    (hs : ∀ name ∈ s.reads, C.readable name) :
    C.Agree C.Completions (Eval.stmt table (depth + 1) c s) (Eval.stmt table (depth' + 1) d s) := by
  rw [Eval.stmt.eq_def, Eval.stmt.eq_def]
  refine Agree.placedAt ?_ _
  cases s with
  | var target value line =>
    refine (h.expr hcd hs).bind fun v w hvalue => ?_
    refine (agree_assign hcd target.name hvalue).bind fun _ _ _ => ?_
    exact agree_pure (.normal .null)
  | ret value line =>
    exact (h.expr hcd hs).bind fun v w hvalue => agree_pure (.returning hvalue)
  | expr value line =>
    have hplain : C.Agree C.Completions
        (do return Completion.normal (← Eval.expr table depth c value))
        (do return Completion.normal (← Eval.expr table depth' d value)) :=
      (h.expr hcd hs).bind fun v w hvalue => agree_pure (.normal hvalue)
    cases value with
    | cond condition consequence alternative l => exact h.branch hcd hs
    | _ => exact hplain
  | block body => exact agree_statements (h.block hcd hs)
  | misplaced expression => exact agree_throw _
  | program statements => exact agree_throw _

/-- One more level of calls. -/
theorem At.apply_succ (h : C.At table depth depth') (hdepth : C.Depths depth depth')
    {function function' : Value} {args args' : List Value} (line : Option Int)
    (hfunction : C.Values function function') (hargs : List.Forall₂ C.Values args args') :
    C.Agree C.Values (Eval.apply table (depth + 1) line function args)
      (Eval.apply table (depth' + 1) line function' args') := by
  rw [Eval.apply.eq_def, Eval.apply.eq_def]
  refine Agree.placedAt ?_ _
  cases hfunction with
  | @closure params body c d hcd hbody =>
    dsimp only
    rw [hargs.length_eq]
    split
    · exact agree_fail _
    · refine (agree_enclose hcd).bind fun frame frame' hframe => ?_
      refine (agree_bindParams hframe params hargs).bind fun _ _ _ => ?_
      refine (agree_statements (h.block hframe hbody)).bind fun completion completion' hends => ?_
      exact agree_pure hends.value
  | builtin b => exact agree_applyBuiltin hdepth (h.apply none) b hargs
  | _ => exact agree_fail _

/-- At depths that belong together evaluation agrees. -/
theorem at_of_depths (C : Comparison) (table : BuiltinTable) (hdepth : C.Depths depth depth') :
    C.At table depth depth' := by
  induction depth generalizing depth' with
  | zero =>
    obtain rfl | ⟨hlenient, -⟩ := hdepth
    · exact ⟨fun _ _ => agree_throw _, fun _ _ => agree_throw _, fun _ _ _ => agree_throw _⟩
    · exact ⟨fun _ _ _ _ _ => .inr ⟨hlenient, rfl⟩, fun _ _ _ _ _ => .inr ⟨hlenient, rfl⟩,
        fun _ _ _ _ _ _ => .inr ⟨hlenient, rfl⟩⟩
  | succ depth ih =>
    obtain ⟨below, rfl, hbelow⟩ := hdepth.of_succ
    have h := ih hbelow
    exact ⟨fun hcd he => h.expr_succ hcd he, fun hcd hs => h.stmt_succ hcd hs, h.apply_succ hbelow⟩

/-- Nodes that read readable names come to ends that belong together, or the first run reports that
it has run out of depth, if that may be. -/
theorem ends_node (C : Comparison) (table : BuiltinTable) (hdepth : C.Depths depth depth')
    (hcd : C.frames c d) {n : Ast.Node} (hn : ∀ name ∈ n.reads, C.readable name) {a b : Machine}
    (hab : C.states a b) :
    C.Ends C.Values (runIn a (node table depth c n)) (runIn b (node table depth' d n)) ∨
      C.lenient ∧
        (runIn a (node table depth c n)).1 = .error (.error ⟨.recursionLimit, some n.line⟩) := by
  have h := C.at_of_depths table hdepth
  cases n with
  | program p =>
    have hstatements := agree_statements (h.each hcd hn)
    exact (hstatements.bind fun _ _ hends => agree_pure hends.value).reportingExhaustion _ hab
  | stmt s =>
    have hstmt := h.stmt hcd hn
    exact (hstmt.bind fun _ _ hends => agree_pure hends.value).reportingExhaustion _ hab
  | expr e => exact (h.expr hcd hn).reportingExhaustion _ hab

end Depth

end Comparison

end EtherLang
