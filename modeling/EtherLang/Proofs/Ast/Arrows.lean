import EtherLang.Proofs.Ast.RoundTrip
import EtherLang.Proofs.Surface.Recursion

/-!
# What arrows stand for

Desugaring gives every tree its image, in which an arrow is the call that it stands for, unless an
arrow aims at something that is neither a call nor an arrow. Then it reports the first such arrow,
where trees are gone through from the left and the arrows on the sides of an arrow come before it.
In the text an arrow stands between its sides, and it has the line of its token.

So a value can be handed from call to call along a chain of any length, and the chain is read as the
calls one inside the other.
-/

namespace EtherLang

/-- A call with a value in front of its arguments, on the given line. -/
def Ast.Expr.withArgument (e value : Ast.Expr) (line : Nat) : Ast.Expr :=
  match e with
  | .call callee args _ => .call callee (value :: args) line
  | other => other

namespace Surface

/-- Whether an expression is a call, or an arrow, which stands for one. -/
def Expr.isCall : Expr → Bool
  | .call .. | .arrow .. => true
  | _ => false

/-- An arrow of a tree: the expression that it aims at and its line. -/
structure Arrow where
  target : Expr
  line : Nat

/-- The orders in which the arrows of a tree can be gone through. -/
inductive Order where
  /-- An arrow comes between those on its sides, as in the text. -/
  | text
  /-- An arrow comes after those on its sides. -/
  | sidesFirst

/-- The arrows on the left and on the right side of an arrow together with the arrow. -/
def Order.around (order : Order) (left : List Arrow) (a : Arrow) (right : List Arrow) :
    List Arrow :=
  match order with
  | text => left ++ a :: right
  | sidesFirst => left ++ (right ++ [a])

mutual

/-- The arrows of an expression. -/
def Expr.arrows (order : Order) : Expr → List Arrow
  | .integer _ _ | .boolean _ _ | .ident _ _ => []
  | .unary _ operand _ => operand.arrows order
  | .binary _ left right _ => left.arrows order ++ right.arrows order
  | .function _ body _ => body.arrows order
  | .call callee args _ => callee.arrows order ++ arrowsOfList order args
  | .index array index _ => array.arrows order ++ index.arrows order
  | .array elements _ => arrowsOfList order elements
  | .arrow value target line =>
    order.around (value.arrows order) ⟨target, line⟩ (target.arrows order)
  | .cond condition consequence none _ => condition.arrows order ++ consequence.arrows order
  | .cond condition consequence (some alternative) _ =>
    condition.arrows order ++ (consequence.arrows order ++ alternative.arrows order)

/-- The arrows of expressions, from left to right. -/
def arrowsOfList (order : Order) : List Expr → List Arrow
  | [] => []
  | first :: others => first.arrows order ++ arrowsOfList order others

/-- The arrows of a statement. -/
def Stmt.arrows (order : Order) : Stmt → List Arrow
  | .var _ value _ | .ret value _ | .expr value _ => value.arrows order

/-- The arrows of a block. -/
def Block.arrows (order : Order) : Block → List Arrow
  | .mk statements _ => arrowsOfStatements order statements

/-- The arrows of statements, one after the other. -/
def arrowsOfStatements (order : Order) : List Stmt → List Arrow
  | [] => []
  | first :: others => first.arrows order ++ arrowsOfStatements order others

end

mutual

/-- The image of an expression, node by node. An arrow becomes the image of its target with the
image of its value in front of the arguments. -/
def Expr.image : Expr → Ast.Expr
  | .integer digits line => .int (Text.ofAsciiDigits digits) line
  | .boolean value line => .bool value line
  | .ident name line => .ident name line
  | .unary op operand line => .unary (.known op) operand.image line
  | .binary op left right line => .binary (.known op) left.image right.image line
  | .function params body line => .function params body.image line
  | .call callee args line => .call callee.image (imageOfList args) line
  | .index array index line => .index array.image index.image line
  | .array elements line => .array (imageOfList elements) line
  | .arrow value target line => target.image.withArgument value.image line
  | .cond condition consequence none line => .cond condition.image consequence.image none line
  | .cond condition consequence (some alternative) line =>
    .cond condition.image consequence.image (some alternative.image) line

/-- The images of expressions. -/
def imageOfList : List Expr → List Ast.Expr
  | [] => []
  | first :: others => first.image :: imageOfList others

/-- The image of a statement. -/
def Stmt.image : Stmt → Ast.Stmt
  | .var target value line => .var target value.image line
  | .ret value line => .ret value.image line
  | .expr value line => .expr value.image line

/-- The image of a block. -/
def Block.image : Block → Ast.Block
  | .mk statements line => .mk (imageOfStatements statements) line

/-- The images of statements. -/
def imageOfStatements : List Stmt → List Ast.Stmt
  | [] => []
  | first :: others => first.image :: imageOfStatements others

end

/-- All arrows aim at calls. -/
def AimAtCalls (arrows : List Arrow) : Prop :=
  ∀ a ∈ arrows, a.target.isCall = true

/-- What becomes of a tree that has these arrows, in their order, and this image: the image, or the
report on the first arrow that does not aim at a call. -/
def outcome {α : Type} (arrows : List Arrow) (image : α) : Except ParseError α :=
  match arrows.find? (fun a => !a.target.isCall) with
  | none => .ok image
  | some a => .error ⟨.arrowTarget a.target.image.render, a.line⟩

section Outcome

variable {α β : Type} {r : Except ParseError α} {x : α} {y : β} {as bs : List Arrow}
  {f : α → Except ParseError β}

/-- No arrow is found that does not aim at a call if all of them do. -/
theorem find?_eq_none_iff : as.find? (fun a => !a.target.isCall) = none ↔ AimAtCalls as := by
  simp [List.find?_eq_none, AimAtCalls]

/-- A tree whose arrows aim at calls becomes its image. -/
theorem outcome_eq_ok (h : AimAtCalls as) (x : α) : outcome as x = .ok x := by
  rw [outcome, find?_eq_none_iff.mpr h]

/-- The arrows of the first part come before those of the second part, which is gone on with if all
of them aim at calls. -/
theorem bind_eq_outcome (hr : r = outcome as x) (h : AimAtCalls as → f x = outcome bs y) :
    (r >>= f) = outcome (as ++ bs) y := by
  rw [hr]
  cases hfind : as.find? (fun a => !a.target.isCall) with
  | none =>
    have has : AimAtCalls as := find?_eq_none_iff.mp hfind
    rw [outcome_eq_ok has, Parser.ok_bind, h has, outcome, outcome, List.find?_append, hfind,
      Option.none_or]
  | some a =>
    rw [outcome, outcome, List.find?_append, hfind, Option.some_or]
    rfl

/-- What is made of the image of a tree brings no further arrows. -/
theorem bind_pure_eq_outcome (hr : r = outcome as x) (g : α → β) :
    (r >>= fun a => pure (g a)) = outcome as (g x) := by
  have hbind : (r >>= fun a => pure (g a)) = outcome (as ++ []) (g x) :=
    bind_eq_outcome hr fun _ => rfl
  rwa [List.append_nil] at hbind

/-- A tree becomes its image if and only if all its arrows aim at calls. -/
theorem exists_outcome_eq_ok_iff : (∃ x', outcome as x = .ok x') ↔ AimAtCalls as := by
  refine ⟨fun ⟨x', hx'⟩ => ?_, fun h => ⟨x, outcome_eq_ok h x⟩⟩
  rw [outcome] at hx'
  split at hx'
  · next hfind => exact find?_eq_none_iff.mp hfind
  · cases hx'

/-- What is made of the image of a tree after desugaring is made of the image. -/
theorem map_outcome (g : α → β) : (outcome as x).map g = outcome as (g x) := by
  rw [outcome, outcome]
  split <;> rfl

end Outcome

/-- If the arrows of a call or an arrow aim at calls, its image is a call. -/
theorem Expr.exists_image_eq_call (e : Expr) (he : e.isCall = true)
    (h : AimAtCalls (e.arrows .sidesFirst)) :
    ∃ callee args line, e.image = .call callee args line := by
  match e with
  | .call callee args line => exact ⟨_, _, _, rfl⟩
  | .arrow value target line =>
    obtain ⟨haim, hcall⟩ : AimAtCalls (target.arrows .sidesFirst) ∧ target.isCall = true := by
      simpa [Expr.arrows, Order.around, AimAtCalls, or_imp, forall_and] using
        (List.forall_mem_append.mp h).2
    obtain ⟨callee, args, line', himage⟩ := target.exists_image_eq_call hcall haim
    exact ⟨_, _, _, by rw [Expr.image, himage, Ast.Expr.withArgument]⟩
termination_by structural e

/-- The image of an expression that is neither a call nor an arrow is no call. -/
theorem applyArrow_image_of_not_isCall {e : Expr} (he : e.isCall = false) (value : Ast.Expr)
    (line : Nat) : applyArrow value e.image line = .error ⟨.arrowTarget e.image.render, line⟩ := by
  match e with
  | .integer _ _ | .boolean _ _ | .ident _ _ | .unary _ _ _ | .binary _ _ _ _ => rfl
  | .function _ _ _ | .index _ _ _ | .array _ _ => rfl
  | .cond _ _ none _ | .cond _ _ (some _) _ => rfl

/-- An arrow whose target has been gone through becomes its image if it aims at a call. -/
theorem applyArrow_image {target : Expr} (h : AimAtCalls (target.arrows .sidesFirst))
    (value : Ast.Expr) (line : Nat) :
    applyArrow value target.image line =
      outcome [⟨target, line⟩] (target.image.withArgument value line) := by
  cases hcall : target.isCall with
  | true =>
    obtain ⟨callee, args, line', himage⟩ := target.exists_image_eq_call hcall h
    simp [himage, applyArrow, Ast.Expr.withArgument, outcome, hcall]
  | false => simp [applyArrow_image_of_not_isCall hcall, outcome, hcall]

mutual

/-- Desugaring an expression gives its image or reports its first bad arrow. -/
theorem Expr.desugar_eq (e : Expr) :
    e.desugar .unbounded = outcome (e.arrows .sidesFirst) e.image := by
  rw [Expr.desugar.eq_def]
  match e with
  | .integer _ _ | .boolean _ _ | .ident _ _ => rfl
  | .unary op operand line => exact bind_pure_eq_outcome operand.desugar_eq _
  | .binary op left right line =>
    exact bind_eq_outcome left.desugar_eq fun _ => bind_pure_eq_outcome right.desugar_eq _
  | .function params body line => exact bind_pure_eq_outcome body.desugar_eq _
  | .call callee args line =>
    exact bind_eq_outcome callee.desugar_eq fun _ => bind_pure_eq_outcome (desugarList_eq args) _
  | .index array index line =>
    exact bind_eq_outcome array.desugar_eq fun _ => bind_pure_eq_outcome index.desugar_eq _
  | .array elements line => exact bind_pure_eq_outcome (desugarList_eq elements) _
  | .arrow value target line =>
    -- The arrow is looked at when those in its target are known to aim at calls.
    exact bind_eq_outcome value.desugar_eq fun _ => bind_eq_outcome target.desugar_eq
      fun htarget => applyArrow_image htarget value.image line
  | .cond condition consequence none line =>
    exact bind_eq_outcome condition.desugar_eq fun _ =>
      bind_pure_eq_outcome consequence.desugar_eq _
  | .cond condition consequence (some alternative) line =>
    exact bind_eq_outcome condition.desugar_eq fun _ => bind_eq_outcome consequence.desugar_eq
      fun _ => bind_pure_eq_outcome alternative.desugar_eq _
termination_by structural e

/-- Desugaring expressions gives their images or reports their first bad arrow. -/
theorem desugarList_eq (es : List Expr) :
    desugarList .unbounded es = outcome (arrowsOfList .sidesFirst es) (imageOfList es) := by
  match es with
  | [] => rfl
  | first :: others =>
    exact bind_eq_outcome first.desugar_eq fun _ => bind_pure_eq_outcome (desugarList_eq others) _
termination_by structural es

/-- Desugaring a statement gives its image or reports its first bad arrow. -/
theorem Stmt.desugar_eq (s : Stmt) :
    s.desugar .unbounded = outcome (s.arrows .sidesFirst) s.image := by
  match s with
  | .var _ value _ | .ret value _ | .expr value _ => exact bind_pure_eq_outcome value.desugar_eq _
termination_by structural s

/-- Desugaring a block gives its image or reports its first bad arrow. -/
theorem Block.desugar_eq (b : Block) :
    b.desugar .unbounded = outcome (b.arrows .sidesFirst) b.image := by
  match b with
  | .mk statements line => exact bind_pure_eq_outcome (desugarStatements_eq statements) _
termination_by structural b

/-- Desugaring statements gives their images or reports their first bad arrow. -/
theorem desugarStatements_eq (ss : List Stmt) :
    desugarStatements .unbounded ss =
      outcome (arrowsOfStatements .sidesFirst ss) (imageOfStatements ss) := by
  match ss with
  | [] => rfl
  | first :: others =>
    exact bind_eq_outcome first.desugar_eq fun _ =>
      bind_pure_eq_outcome (desugarStatements_eq others) _
termination_by structural ss

end

section Order

variable {as as' bs bs' : List Arrow}

/-- An arrow and those on its sides are the same arrows in both orders. -/
theorem around_perm (a : Arrow) (has : as.Perm as') (hbs : bs.Perm bs') :
    (Order.text.around as a bs).Perm (Order.sidesFirst.around as' a bs') :=
  has.append ((hbs.cons a).trans (List.perm_append_singleton a bs').symm)

mutual

/-- An expression has the same arrows in both orders. -/
theorem Expr.arrows_perm (e : Expr) : (e.arrows .text).Perm (e.arrows .sidesFirst) := by
  match e with
  | .integer _ _ | .boolean _ _ | .ident _ _ => exact .refl []
  | .unary _ operand _ => exact operand.arrows_perm
  | .binary _ left right _ => exact left.arrows_perm.append right.arrows_perm
  | .function _ body _ => exact body.arrows_perm
  | .call callee args _ => exact callee.arrows_perm.append (arrowsOfList_perm args)
  | .index array index _ => exact array.arrows_perm.append index.arrows_perm
  | .array elements _ => exact arrowsOfList_perm elements
  | .arrow value target line => exact around_perm _ value.arrows_perm target.arrows_perm
  | .cond condition consequence none _ =>
    exact condition.arrows_perm.append consequence.arrows_perm
  | .cond condition consequence (some alternative) _ =>
    exact condition.arrows_perm.append (consequence.arrows_perm.append alternative.arrows_perm)
termination_by structural e

/-- Expressions have the same arrows in both orders. -/
theorem arrowsOfList_perm (es : List Expr) :
    (arrowsOfList .text es).Perm (arrowsOfList .sidesFirst es) := by
  match es with
  | [] => exact .refl []
  | first :: others => exact first.arrows_perm.append (arrowsOfList_perm others)
termination_by structural es

/-- A statement has the same arrows in both orders. -/
theorem Stmt.arrows_perm (s : Stmt) : (s.arrows .text).Perm (s.arrows .sidesFirst) := by
  match s with
  | .var _ value _ | .ret value _ | .expr value _ => exact value.arrows_perm
termination_by structural s

/-- A block has the same arrows in both orders. -/
theorem Block.arrows_perm (b : Block) : (b.arrows .text).Perm (b.arrows .sidesFirst) := by
  match b with
  | .mk statements _ => exact arrowsOfStatements_perm statements
termination_by structural b

/-- Statements have the same arrows in both orders. -/
theorem arrowsOfStatements_perm (ss : List Stmt) :
    (arrowsOfStatements .text ss).Perm (arrowsOfStatements .sidesFirst ss) := by
  match ss with
  | [] => exact .refl []
  | first :: others => exact first.arrows_perm.append (arrowsOfStatements_perm others)
termination_by structural ss

end

end Order

/-- The lines of the arrows among tokens. -/
def arrowLines (ts : List Token) : List Nat :=
  (ts.filter (·.kind = .arrow)).map Token.line

open Grammar

section Tokens

variable {t : Token} {ts us : List Token}

/-- No tokens hold no arrow. -/
@[simp] theorem arrowLines_nil : arrowLines [] = [] :=
  rfl

/-- The arrows of the first tokens come before those of the last ones. -/
@[simp] theorem arrowLines_append : arrowLines (ts ++ us) = arrowLines ts ++ arrowLines us := by
  simp [arrowLines]

/-- A token is an arrow or is passed over. -/
theorem arrowLines_cons :
    arrowLines (t :: ts) = if t.kind = .arrow then t.line :: arrowLines ts else arrowLines ts := by
  by_cases ht : t.kind = .arrow <;> simp [arrowLines, ht]

/-- Names with commas between them hold no arrow. -/
theorem Grammar.Names.arrowLines_eq {names : List Ident} (h : Names ts names) :
    arrowLines ts = [] := by
  induction h with
  | last hname => simp [arrowLines_cons, hname]
  | cons hname hcomma _ ih => simp [arrowLines_cons, hname, hcomma, ih]

/-- Parameters hold no arrow. -/
theorem Grammar.Params.arrowLines_eq {names : List Ident} (h : Params ts names) :
    arrowLines ts = [] := by
  cases h with
  | none => rfl
  | some h => exact h.arrowLines_eq

end Tokens

mutual

/-- The arrows of a derived expression, in the order of the text, have the lines of their tokens. -/
theorem Grammar.Derives.arrowLines_eq {s : Stratum} {ts : List Token} {e : Expr}
    (h : Derives s ts e) : arrowLines ts = (e.arrows .text).map Arrow.line := by
  match h with
  | .arrow hl ht hr =>
    simp [arrowLines_cons, ht, hl.arrowLines_eq, hr.arrowLines_eq, Expr.arrows, Order.around]
  | .binary op hl ht hr =>
    have hne : op.tokenKind ≠ .arrow := by cases op <;> decide
    simp [arrowLines_cons, ht, hne, hl.arrowLines_eq, hr.arrowLines_eq, Expr.arrows]
  | .unary op ht h =>
    have hne : op.tokenKind ≠ .arrow := by cases op <;> decide
    simp [arrowLines_cons, ht, hne, h.arrowLines_eq, Expr.arrows]
  | .call hcallee ht hargs hclose =>
    simp [arrowLines_cons, ht, hclose, hcallee.arrowLines_eq, hargs.arrowLines_eq, Expr.arrows]
  | .index harray ht hindex hclose =>
    simp [arrowLines_cons, ht, hclose, harray.arrowLines_eq, hindex.arrowLines_eq, Expr.arrows]
  | .integer ht _ | .kwTrue ht | .kwFalse ht | .ident ht => simp [arrowLines_cons, ht, Expr.arrows]
  | .group ht h hclose => simp [arrowLines_cons, ht, hclose, h.arrowLines_eq]
  | .function ht hparams hclose hbody =>
    simp [arrowLines_cons, ht, hclose, hparams.arrowLines_eq, hbody.arrowLines_eq, Expr.arrows]
  | .array ht helements hclose =>
    simp [arrowLines_cons, ht, hclose, helements.arrowLines_eq, Expr.arrows]
  | .cond ht hcondition hconsequence =>
    simp [arrowLines_cons, ht, hcondition.arrowLines_eq, hconsequence.arrowLines_eq, Expr.arrows]
  | .condElse ht hcondition hconsequence helse halternative =>
    simp [arrowLines_cons, ht, helse, hcondition.arrowLines_eq, hconsequence.arrowLines_eq,
      halternative.arrowLines_eq, Expr.arrows]
  | .climb _ h => exact h.arrowLines_eq
termination_by structural h

/-- The arrows of derived expressions have the lines of their tokens. -/
theorem Grammar.Items.arrowLines_eq {ts : List Token} {es : List Expr} (h : Items ts es) :
    arrowLines ts = (arrowsOfList .text es).map Arrow.line := by
  match h with
  | .last h => simp [h.arrowLines_eq, arrowsOfList]
  | .cons h hcomma hothers =>
    simp [arrowLines_cons, hcomma, h.arrowLines_eq, hothers.arrowLines_eq, arrowsOfList]
termination_by structural h

/-- The arrows of derived arguments have the lines of their tokens. -/
theorem Grammar.Args.arrowLines_eq {ts : List Token} {es : List Expr} (h : Args ts es) :
    arrowLines ts = (arrowsOfList .text es).map Arrow.line := by
  match h with
  | .none => rfl
  | .some h => exact h.arrowLines_eq
termination_by structural h

/-- The arrows of a derived block have the lines of their tokens. -/
theorem Grammar.Braces.arrowLines_eq {ts : List Token} {body : Block} (h : Braces ts body) :
    arrowLines ts = (body.arrows .text).map Arrow.line := by
  match h with
  | .mk ht hss hclose => simp [arrowLines_cons, ht, hclose, hss.arrowLines_eq, Block.arrows]
termination_by structural h

/-- The arrows of a derived statement have the lines of their tokens. -/
theorem Grammar.Statement.arrowLines_eq {ts : List Token} {s : Stmt} (h : Statement ts s) :
    arrowLines ts = (s.arrows .text).map Arrow.line := by
  match h with
  | .var ht hname hequals h =>
    simp [arrowLines_cons, ht, hname, hequals, h.arrowLines_eq, Stmt.arrows]
  | .ret ht h => simp [arrowLines_cons, ht, h.arrowLines_eq, Stmt.arrows]
  | .expr h => exact h.arrowLines_eq
termination_by structural h

/-- The arrows of derived statements have the lines of their tokens. -/
theorem Grammar.Statements.arrowLines_eq {ts : List Token} {ss : List Stmt}
    (h : Statements ts ss) : arrowLines ts = (arrowsOfStatements .text ss).map Arrow.line := by
  match h with
  | .nil => rfl
  | .last h => simp [h.arrowLines_eq, arrowsOfStatements]
  | .cons h hsemicolon hothers =>
    simp [arrowLines_cons, hsemicolon, h.arrowLines_eq, hothers.arrowLines_eq, arrowsOfStatements]
  | .closed h _ _ hothers =>
    simp [h.arrowLines_eq, hothers.arrowLines_eq, arrowsOfStatements]
termination_by structural h

end

end Surface

namespace Ast

open Surface Surface.Grammar Surface.Parser

/-- A call that a value is handed to: the callee and the arguments behind the value. -/
structure Stage where
  callee : Expr
  args : List Expr

namespace Stage

/-- Whether a stage is made of well-formed expressions. -/
def wellFormed (stage : Stage) : Bool :=
  stage.callee.wellFormed && wellFormedList stage.args

/-- The call as it stands behind an arrow. -/
def written (stage : Stage) : Expr :=
  .call stage.callee stage.args 0

/-- The call with the value that is handed to it. -/
def applied (stage : Stage) (value : Expr) : Expr :=
  .call stage.callee (value :: stage.args) 0

end Stage

/-- The text of a chain that hands what a text stands for from stage to stage. -/
def chainText (text : String) (stages : List Stage) : String :=
  stages.foldl (fun text stage => text ++ " -> " ++ stage.written.render) text

/-- The calls of a chain one inside the other, around the value that goes through it. -/
def chainCall (value : Expr) (stages : List Stage) : Expr :=
  stages.foldl (fun value stage => stage.applied value) value

/-- Only a call is the same as a call. -/
theorem Expr.exists_call_of_same {callee e : Expr} {args : List Expr} {l : Int}
    (h : (Expr.call callee args l).same e = true) :
    ∃ callee' args' l', e = .call callee' args' l' ∧ callee.same callee' = true ∧
      sameList args args' = true := by
  cases e with
  | call callee' args' l' =>
    rw [Expr.same, Bool.and_eq_true] at h
    exact ⟨callee', args', l', rfl, h⟩
  | _ => simp [Expr.same] at h

/-- A call behind an arrow is read back with the value in front of its arguments. -/
theorem Expr.ReadBack.chain {value callee : Expr} {args : List Expr} {ts us : List Token}
    {l : Int} (hvalue : value.ReadBack .arrow ts)
    (hcall : (Expr.call callee args l).ReadBack .trailer us) (line : Nat) :
    (Expr.call callee (value :: args) l).ReadBack .arrow (ts ++ ⟨.arrow, "->", line⟩ :: us) := by
  obtain ⟨s, value', hs, hdesugar, hsame⟩ := hvalue
  obtain ⟨u, call', hu, hdesugar', hsame'⟩ := hcall
  obtain ⟨callee', args', l', rfl, hcallee, hargs⟩ := exists_call_of_same hsame'
  refine ⟨.arrow s u line, .call callee' (value' :: args') line, ?_, ?_, ?_⟩
  · exact .arrow hs rfl (hu.of_binding_le (by decide))
  · rw [Surface.Expr.desugar]
    simp only [Depth.down?, hdesugar, hdesugar', ok_bind]
    rfl
  · simp [Expr.same, sameList, hsame, hcallee, hargs]

/-- Wherever a word may end behind it, the text is scanned as tokens that are read as the
expression. -/
structure Expr.WrittenAs (e : Expr) (text : String) (ts : List Token) : Prop where
  scanned : ∀ rest, Breaks rest →
    (scanFrom 1 (text.toList ++ rest)).tokens = ts ++ (scanFrom 1 rest).tokens
  convertible : Throughout Convertible ts
  readBack : e.ReadBack .arrow ts

/-- An expression is written as its canonical text. -/
theorem Expr.writtenAs_render {e : Expr} (he : e.wellFormed = true) :
    e.WrittenAs e.render (e.tokens 1) :=
  ⟨fun _ hrest => e.scanFrom_render he 1 hrest, e.convertible he 1, (e.readBack he 1).arrow⟩

section Chain

variable {value : Expr} {text : String} {ts : List Token}

/-- Behind an arrow a stage takes the value that stands before it. -/
theorem Expr.WrittenAs.applied (h : value.WrittenAs text ts) {stage : Stage}
    (hstage : stage.wellFormed = true) :
    (stage.applied value).WrittenAs (text ++ " -> " ++ stage.written.render)
      (ts ++ ⟨.arrow, "->", 1⟩ :: stage.written.tokens 1) := by
  have hwritten : stage.written.wellFormed = true := hstage
  refine ⟨fun rest hrest => ?_, ?_, h.readBack.chain (stage.written.readBack hwritten 1) 1⟩
  · have htext : (text ++ " -> " ++ stage.written.render).toList ++ rest =
        text.toList ++ ' ' :: '-' :: '>' :: ' ' :: (stage.written.render.toList ++ rest) := by
      simp
    rw [htext, h.scanned _ (breaks_cons rfl), scanFrom_blank,
      scanFrom_pair (show isSymbol '-' = true by decide) rfl, scanFrom_blank,
      stage.written.scanFrom_render hwritten 1 hrest]
    simp
  · have harrow : Convertible ⟨.arrow, "->", 1⟩ := nofun
    simp [h.convertible, harrow, stage.written.convertible hwritten 1]

/-- A chain is written as its text. -/
theorem Expr.WrittenAs.chain (h : value.WrittenAs text ts) {stages : List Stage}
    (hstages : ∀ stage ∈ stages, stage.wellFormed = true) :
    ∃ us, (chainCall value stages).WrittenAs (chainText text stages) us := by
  induction stages generalizing value text ts with
  | nil => exact ⟨ts, h⟩
  | cons stage stages ih =>
    obtain ⟨hstage, hstages⟩ := List.forall_mem_cons.mp hstages
    exact ih (h.applied hstage) hstages

/-- The text of an expression is a program of one statement. -/
theorem Expr.WrittenAs.exists_parse (h : value.WrittenAs text ts) :
    ∃ q, parse .unbounded text = .ok q ∧ Program.same ⟨[.expr value 0]⟩ q = true := by
  have hscan : (tokenStream text).tokens = ts := by
    have hscanned := h.scanned [] nofun
    rwa [scanFrom_nil, List.append_nil, List.append_nil] at hscanned
  obtain ⟨s, value', hs, hdesugar, hsame⟩ := h.readBack
  obtain ⟨t, us, rfl, -⟩ := hs.exists_head
  have hread : Surface.parse .unbounded text = .ok [.expr s t.line] := by
    rw [Surface.parse, hscan]
    exact statements_complete (.last (.expr hs)) h.convertible
  refine ⟨⟨[.expr value' t.line]⟩, ?_, ?_⟩
  · simp only [parse, hread, ok_bind, desugar, desugarStatements, Surface.Stmt.desugar, hdesugar]
    rfl
  · simp [Program.same, sameStatements, Stmt.same, hsame]

end Chain

end Ast

open Ast (Program Stage chainText chainCall)
open Surface

/-- A tree that was read is desugared to its image, node by node, if and only if all its arrows aim
at calls; otherwise the first arrow is reported that does not, the arrows on the sides of an arrow
coming before it. Every arrow has the line of its token. So a chain of calls with arrows between
them is read as the calls one inside the other. -/
theorem desugar_outcome :
    (∀ depth source ss, Surface.parse depth source = .ok ss →
      ((∃ p, desugar .unbounded ss = .ok p) ↔ AimAtCalls (arrowsOfStatements .sidesFirst ss)) ∧
      desugar .unbounded ss =
        outcome (arrowsOfStatements .sidesFirst ss) ⟨imageOfStatements ss⟩ ∧
      (arrowsOfStatements .text ss).Perm (arrowsOfStatements .sidesFirst ss) ∧
      (arrowsOfStatements .text ss).map Arrow.line = arrowLines (tokenStream source).tokens) ∧
    ∀ (e : Ast.Expr) (stages : List Stage), e.wellFormed = true →
      (∀ stage ∈ stages, stage.wellFormed = true) →
      ∃ q, parse .unbounded (chainText e.render stages) = .ok q ∧
        Program.same ⟨[.expr (chainCall e stages) 0]⟩ q = true := by
  constructor
  · intro depth source ss h
    have heq : desugar .unbounded ss =
        outcome (arrowsOfStatements .sidesFirst ss) ⟨imageOfStatements ss⟩ := by
      rw [desugar, desugarStatements_eq]
      exact map_outcome _
    have hderived : Grammar.Statements (tokenStream source).tokens ss := Parser.statements_sound h
    refine ⟨?_, heq, arrowsOfStatements_perm ss, hderived.arrowLines_eq.symm⟩
    rw [heq]
    exact exists_outcome_eq_ok_iff
  · intro e stages he hstages
    obtain ⟨us, hwritten⟩ := (Ast.Expr.writtenAs_render he).chain hstages
    exact hwritten.exists_parse

/-- An arrow aims at an array that holds an arrow to a number on the next line, and it is that arrow
which is reported. A value is handed to an `if` that is called and to a function that is called. -/
theorem desugar_outcome_arrowInArray :
    let tree : List Surface.Stmt :=
      [.expr (.arrow (.ident "x" 1)
        (.array [.arrow (.ident "y" 1) (.integer "1" 2) 2] 1) 1) 1]
    let body : Ast.Block := .mk [.expr (.ident "a" 0) 0] 0
    let stages : List Stage :=
      [⟨.cond (.ident "x" 0) (.mk [] 0) none 0, []⟩, ⟨.function [⟨"a", 0⟩] body 0, [.int 1 0]⟩]
    Surface.parse .unbounded "x -> [y\n-> 1]" = .ok tree ∧
      desugar .unbounded tree = .error ⟨.arrowTarget "1", 2⟩ ∧
      (arrowsOfStatements .text tree).map Arrow.line = [1, 2] ∧
      chainText "true" stages = "true -> if x \x7b\x7d() -> |a| \x7ba;\x7d(1)" ∧
      ∃ q, parse .unbounded "true -> if x \x7b\x7d() -> |a| \x7ba;\x7d(1)" = .ok q ∧
        Program.same ⟨[.expr (.call (.function [⟨"a", 0⟩] body 0)
          [.call (.cond (.ident "x" 0) (.mk [] 0) none 0) [.bool true 0] 0, .int 1 0] 0) 0]⟩ q =
            true := by
  intro tree body stages
  have htree : Surface.parse .unbounded "x -> [y\n-> 1]" = .ok tree := by
    rw [parse_eq_unrolled 100]
    with_unfolding_all rfl
  have htext : chainText "true" stages = "true -> if x \x7b\x7d() -> |a| \x7ba;\x7d(1)" := by
    decide +kernel
  obtain ⟨-, hdesugar, -, hlines⟩ := desugar_outcome.1 _ _ _ htree
  have hchain := desugar_outcome.2 (.bool true 0) stages rfl (by decide)
  refine ⟨htree, hdesugar, hlines.trans (by decide +kernel), htext, ?_⟩
  rw [← htext]
  exact hchain

end EtherLang
