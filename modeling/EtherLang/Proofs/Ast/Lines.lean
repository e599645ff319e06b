import EtherLang.Proofs.Ast.WellFormed

/-!
# The lines of trees that are read from texts

Every node of a tree that reading returns has the line of the token that makes it: the operator, the
opening bracket, the keyword, or the first token of the statement. The call that an arrow stands for
has the line of the arrow.
-/

namespace EtherLang.Ast

mutual

/-- The expression is one of the language, and it and its parts are on lines with the property. -/
def Expr.LiesOn (on : Int → Prop) : Expr → Prop
  | .ident _ line | .int _ line | .bool _ line => on line
  | .unary _ operand line => on line ∧ operand.LiesOn on
  | .binary _ left right line => on line ∧ left.LiesOn on ∧ right.LiesOn on
  | .function _ body line => on line ∧ body.LiesOn on
  | .call callee args line => on line ∧ callee.LiesOn on ∧ LieOn on args
  | .array elements line => on line ∧ LieOn on elements
  | .index array index line => on line ∧ array.LiesOn on ∧ index.LiesOn on
  | .cond condition consequence none line =>
    on line ∧ condition.LiesOn on ∧ consequence.LiesOn on
  | .cond condition consequence (some alternative) line =>
    on line ∧ condition.LiesOn on ∧ consequence.LiesOn on ∧ alternative.LiesOn on
  | .misplaced _ | .foreign => False

/-- The expressions are ones of the language, on lines with the property. -/
def LieOn (on : Int → Prop) : List Expr → Prop
  | [] => True
  | first :: others => first.LiesOn on ∧ LieOn on others

/-- The statement is one of the language, on lines with the property. -/
def Stmt.LiesOn (on : Int → Prop) : Stmt → Prop
  | .var _ value line | .ret value line | .expr value line => on line ∧ value.LiesOn on
  | .block _ | .misplaced _ | .program _ => False

/-- The statements of the block are ones of the language, on lines with the property. -/
def Block.LiesOn (on : Int → Prop) : Block → Prop
  | .mk statements _ => StatementsLieOn on statements

/-- The statements are ones of the language, on lines with the property. -/
def StatementsLieOn (on : Int → Prop) : List Stmt → Prop
  | [] => True
  | first :: others => first.LiesOn on ∧ StatementsLieOn on others

end

variable {on : Int → Prop}

/-- Expressions lie on such lines if each of them does. -/
theorem lieOn_iff {es : List Expr} : LieOn on es ↔ ∀ e ∈ es, e.LiesOn on := by
  induction es with
  | nil => simp [LieOn]
  | cons first others ih => rw [LieOn, ih, List.forall_mem_cons]

/-- Statements lie on such lines if each of them does. -/
theorem statementsLieOn_iff {ss : List Stmt} :
    StatementsLieOn on ss ↔ ∀ s ∈ ss, s.LiesOn on := by
  induction ss with
  | nil => simp [StatementsLieOn]
  | cons first others ih => rw [StatementsLieOn, ih, List.forall_mem_cons]

/-- The statements of a block that lies on such lines do. -/
theorem Block.LiesOn.statements {b : Block} (h : b.LiesOn on) :
    ∀ s ∈ b.statements, s.LiesOn on := by
  obtain ⟨ss, line⟩ := b
  exact statementsLieOn_iff.mp h

/-- The parts of an `if` that lies on such lines do. -/
theorem Expr.LiesOn.cond {condition : Expr} {consequence : Block} {alternative : Option Block}
    {line : Int} (h : (Expr.cond condition consequence alternative line).LiesOn on) :
    condition.LiesOn on ∧ (∀ s ∈ consequence.statements, s.LiesOn on) ∧
      ∀ b ∈ alternative, ∀ s ∈ b.statements, s.LiesOn on := by
  cases alternative with
  | none => exact ⟨h.2.1, h.2.2.statements, nofun⟩
  | some b =>
    refine ⟨h.2.1, h.2.2.1.statements, ?_⟩
    rintro _ ⟨⟩
    exact h.2.2.2.statements

/-- The line of an expression is one of its lines. -/
theorem Expr.LiesOn.line {e : Expr} (h : e.LiesOn on) : on e.line := by
  match e with
  | .ident .. | .int .. | .bool .. => exact h
  | .unary .. | .binary .. | .function .. | .call .. | .array .. | .index .. => exact h.1
  | .cond _ _ none _ | .cond _ _ (some _) _ => exact h.1

/-- The line of a statement is one of its lines. -/
theorem Stmt.LiesOn.line {s : Stmt} (h : s.LiesOn on) : on s.line := by
  match s with
  | .var .. | .ret .. | .expr .. => exact h.1

end EtherLang.Ast

namespace EtherLang.Surface

open Grammar Surface.Parser

variable {on : Int → Prop}

/-- The call that an arrow stands for has the line of the arrow. -/
theorem applyArrow_liesOn {value target e : Ast.Expr} {line : Nat}
    (h : applyArrow value target line = .ok e) (hline : on line) (hvalue : value.LiesOn on)
    (htarget : target.LiesOn on) : e.LiesOn on := by
  unfold applyArrow at h
  split at h
  · cases h
    exact ⟨hline, htarget.2.1, hvalue, htarget.2.2⟩
  · cases h

mutual

/-- What lowering makes of a derived expression lies on lines of its tokens. -/
theorem derives_liesOn {s : Stratum} {ts : List Token} {e : Expr} {e' : Ast.Expr}
    {depth : Depth} (h : Derives s ts e) (hts : Throughout (fun t => on t.line) ts)
    (he : e.desugar depth = .ok e') : e'.LiesOn on := by
  obtain ⟨inner, hinner⟩ := desugar_eq_ok he
  match h with
  | .arrow hl _ hr =>
    rw [Expr.desugar, hinner] at he
    obtain ⟨l', hl', he⟩ := bind_eq_ok he
    obtain ⟨r', hr', he⟩ := bind_eq_ok he
    exact applyArrow_liesOn he hts.right.head (derives_liesOn hl hts.left hl')
      (derives_liesOn hr hts.right.tail hr')
  | .binary op hl _ hr =>
    rw [Expr.desugar, hinner] at he
    obtain ⟨l', hl', he⟩ := bind_eq_ok he
    obtain ⟨r', hr', he⟩ := bind_eq_ok he
    cases he
    exact ⟨hts.right.head, derives_liesOn hl hts.left hl', derives_liesOn hr hts.right.tail hr'⟩
  | .unary op _ h =>
    rw [Expr.desugar, hinner] at he
    obtain ⟨operand', hoperand, he⟩ := bind_eq_ok he
    cases he
    exact ⟨hts.head, derives_liesOn h hts.tail hoperand⟩
  | .call hcallee _ hargs _ =>
    rw [Expr.desugar, hinner] at he
    obtain ⟨callee', hcallee', he⟩ := bind_eq_ok he
    obtain ⟨args', hargs', he⟩ := bind_eq_ok he
    cases he
    exact ⟨hts.right.head, derives_liesOn hcallee hts.left hcallee',
      args_lieOn hargs hts.right.tail.left hargs'⟩
  | .index harray _ hindex _ =>
    rw [Expr.desugar, hinner] at he
    obtain ⟨array', harray', he⟩ := bind_eq_ok he
    obtain ⟨index', hindex', he⟩ := bind_eq_ok he
    cases he
    exact ⟨hts.right.head, derives_liesOn harray hts.left harray',
      derives_liesOn hindex hts.right.tail.left hindex'⟩
  | .integer _ _ | .kwTrue _ | .kwFalse _ | .ident _ =>
    rw [Expr.desugar, hinner] at he
    cases he
    exact hts.head
  | .group _ h _ => exact derives_liesOn h hts.tail.left he
  | .function _ _ _ hbody =>
    rw [Expr.desugar, hinner] at he
    obtain ⟨body', hbody', he⟩ := bind_eq_ok he
    cases he
    exact ⟨hts.head, braces_lieOn hbody hts.tail.right.tail hbody'⟩
  | .array _ helements _ =>
    rw [Expr.desugar, hinner] at he
    obtain ⟨elements', helements', he⟩ := bind_eq_ok he
    cases he
    exact ⟨hts.head, args_lieOn helements hts.tail.left helements'⟩
  | .cond _ hcondition hconsequence =>
    rw [Expr.desugar, hinner] at he
    obtain ⟨condition', hcondition', he⟩ := bind_eq_ok he
    obtain ⟨consequence', hconsequence', he⟩ := bind_eq_ok he
    cases he
    exact ⟨hts.head, derives_liesOn hcondition hts.tail.left hcondition',
      braces_lieOn hconsequence hts.tail.right hconsequence'⟩
  | .condElse _ hcondition hconsequence _ halternative =>
    rw [Expr.desugar, hinner] at he
    obtain ⟨condition', hcondition', he⟩ := bind_eq_ok he
    obtain ⟨consequence', hconsequence', he⟩ := bind_eq_ok he
    obtain ⟨alternative', halternative', he⟩ := bind_eq_ok he
    cases he
    exact ⟨hts.head, derives_liesOn hcondition hts.tail.left hcondition',
      braces_lieOn hconsequence hts.tail.right.left hconsequence',
      braces_lieOn halternative hts.tail.right.right.tail halternative'⟩
  | .climb _ h => exact derives_liesOn h hts he
termination_by structural h

/-- What lowering makes of derived arguments lies on lines of their tokens. -/
theorem args_lieOn {ts : List Token} {es : List Expr} {es' : List Ast.Expr} {depth : Depth}
    (h : Args ts es) (hts : Throughout (fun t => on t.line) ts)
    (hes : desugarList depth es = .ok es') : Ast.LieOn on es' := by
  match h with
  | .none =>
    cases hes
    trivial
  | .some h => exact items_lieOn h hts hes
termination_by structural h

/-- What lowering makes of derived expressions lies on lines of their tokens. -/
theorem items_lieOn {ts : List Token} {es : List Expr} {es' : List Ast.Expr} {depth : Depth}
    (h : Items ts es) (hts : Throughout (fun t => on t.line) ts)
    (hes : desugarList depth es = .ok es') : Ast.LieOn on es' := by
  match h with
  | .last h =>
    obtain ⟨first', hfirst, hes⟩ := bind_eq_ok hes
    cases hes
    exact ⟨derives_liesOn h hts hfirst, trivial⟩
  | .cons h _ hothers =>
    obtain ⟨first', hfirst, hes⟩ := bind_eq_ok hes
    obtain ⟨others', hothers', hes⟩ := bind_eq_ok hes
    cases hes
    exact ⟨derives_liesOn h hts.left hfirst, items_lieOn hothers hts.right.tail hothers'⟩
termination_by structural h

/-- What lowering makes of a derived block lies on lines of its tokens. -/
theorem braces_lieOn {ts : List Token} {body : Block} {body' : Ast.Block} {depth : Depth}
    (h : Braces ts body) (hts : Throughout (fun t => on t.line) ts)
    (hbody : body.desugar depth = .ok body') : body'.LiesOn on := by
  match h with
  | .mk _ hss _ =>
    obtain ⟨ss', hss', hbody⟩ := bind_eq_ok hbody
    cases hbody
    exact statements_lieOn hss hts.tail.left hss'
termination_by structural h

/-- What lowering makes of a derived statement lies on lines of its tokens. -/
theorem statement_liesOn {ts : List Token} {s : Stmt} {s' : Ast.Stmt} {depth : Depth}
    (h : Statement ts s) (hts : Throughout (fun t => on t.line) ts)
    (hs : s.desugar depth = .ok s') : s'.LiesOn on := by
  match h with
  | .var _ _ _ h =>
    obtain ⟨value', hvalue, hs⟩ := bind_eq_ok hs
    cases hs
    exact ⟨hts.head, derives_liesOn h hts.tail.tail.tail hvalue⟩
  | .ret _ h =>
    obtain ⟨value', hvalue, hs⟩ := bind_eq_ok hs
    cases hs
    exact ⟨hts.head, derives_liesOn h hts.tail hvalue⟩
  | .expr h =>
    obtain ⟨value', hvalue, hs⟩ := bind_eq_ok hs
    cases hs
    exact ⟨hts.head, derives_liesOn h hts hvalue⟩
termination_by structural h

/-- What lowering makes of derived statements lies on lines of their tokens. -/
theorem statements_lieOn {ts : List Token} {ss : List Stmt} {ss' : List Ast.Stmt}
    {depth : Depth} (h : Statements ts ss) (hts : Throughout (fun t => on t.line) ts)
    (hss : desugarStatements depth ss = .ok ss') : Ast.StatementsLieOn on ss' := by
  match h with
  | .nil =>
    cases hss
    trivial
  | .last h =>
    obtain ⟨first', hfirst, hss⟩ := bind_eq_ok hss
    cases hss
    exact ⟨statement_liesOn h hts hfirst, trivial⟩
  | .cons h _ hothers =>
    obtain ⟨first', hfirst, hss⟩ := bind_eq_ok hss
    obtain ⟨others', hothers', hss⟩ := bind_eq_ok hss
    cases hss
    exact ⟨statement_liesOn h hts.left hfirst, statements_lieOn hothers hts.right.tail hothers'⟩
  | .closed h _ _ hothers =>
    obtain ⟨first', hfirst, hss⟩ := bind_eq_ok hss
    obtain ⟨others', hothers', hss⟩ := bind_eq_ok hss
    cases hss
    exact ⟨statement_liesOn h hts.left hfirst, statements_lieOn hothers hts.right hothers'⟩
termination_by structural h

end

end EtherLang.Surface

namespace EtherLang

open Surface Surface.Grammar Surface.Parser

/-- The line is that of a token of the text. -/
def OnToken (source : String) (line : Int) : Prop :=
  ∃ t ∈ (tokenStream source).tokens, (t.line : Int) = line

/-- All nodes of a program that reading returns are on lines of tokens. -/
theorem liesOn_of_parse {depth : Depth} {source : String} {p : Ast.Program}
    (h : parse depth source = .ok p) : ∀ s ∈ p.statements, s.LiesOn (OnToken source) := by
  obtain ⟨ss, hss, hp⟩ := bind_eq_ok h
  have hderived : Statements (tokenStream source).tokens ss := statements_sound hss
  have htokens : Throughout (fun t => OnToken source t.line) (tokenStream source).tokens :=
    fun t ht => ⟨t, ht, rfl⟩
  match hdesugar : desugarStatements depth ss with
  | .error e =>
    rw [desugar, hdesugar] at hp
    cases hp
  | .ok ss' =>
    rw [desugar, hdesugar] at hp
    cases hp
    exact Ast.statementsLieOn_iff.mp (statements_lieOn hderived htokens hdesugar)

end EtherLang
