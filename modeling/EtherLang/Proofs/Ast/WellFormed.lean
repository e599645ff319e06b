import EtherLang.Ast.Desugar
import EtherLang.Proofs.Surface.Soundness
import EtherLang.Proofs.Token.Pieces

/-!
# Well-formed trees

A tree is well formed if a text can spell it: its names are words that are no keywords, its numbers
are literals of the language, its operators are known and every node stands where it belongs. The
trees that reading returns are all well formed, since the names and numbers of a derivation come
from the tokens of a text.
-/

namespace EtherLang.Ast

mutual

/-- Whether an expression can be spelled. -/
def Expr.wellFormed : Expr → Bool
  | .ident name _ => isName name
  | .int value _ => 0 ≤ value && value ≤ Integer.maxValue
  | .bool _ _ => true
  | .unary (.known _) operand _ => operand.wellFormed
  | .unary (.unknown _) _ _ => false
  | .binary (.known _) left right _ => left.wellFormed && right.wellFormed
  | .binary (.unknown _) _ _ _ => false
  | .function params body _ => params.all (isName ·.name) && body.wellFormed
  | .call callee args _ => callee.wellFormed && wellFormedList args
  | .array elements _ => wellFormedList elements
  | .index array index _ => array.wellFormed && index.wellFormed
  | .cond condition consequence none _ => condition.wellFormed && consequence.wellFormed
  | .cond condition consequence (some alternative) _ =>
    condition.wellFormed && consequence.wellFormed && alternative.wellFormed
  | .misplaced _ | .foreign => false

/-- Whether expressions can be spelled. -/
def wellFormedList : List Expr → Bool
  | [] => true
  | first :: others => first.wellFormed && wellFormedList others

/-- Whether a statement can be spelled. -/
def Stmt.wellFormed : Stmt → Bool
  | .var target value _ => isName target.name && value.wellFormed
  | .ret value _ | .expr value _ => value.wellFormed
  | .block _ | .misplaced _ | .program _ => false

/-- Whether a block can be spelled. -/
def Block.wellFormed : Block → Bool
  | .mk statements _ => wellFormedStatements statements

/-- Whether statements can be spelled. -/
def wellFormedStatements : List Stmt → Bool
  | [] => true
  | first :: others => first.wellFormed && wellFormedStatements others

end

/-- Whether a program can be spelled. -/
def Program.wellFormed (p : Program) : Bool :=
  wellFormedStatements p.statements

end EtherLang.Ast

namespace EtherLang.Surface

open Grammar Surface.Parser

/-- If a token is an identifier, then a name. -/
def Named (t : Token) : Prop :=
  t.kind = .ident → isName t.text = true

/-- The names of a derivation are the names among its tokens. -/
theorem names_wellFormed {ts : List Token} {names : List Ident} (h : Names ts names)
    (hts : Throughout Named ts) : names.all (isName ·.name) = true := by
  induction h with
  | last hname => simpa using hts.head hname
  | cons hname _ _ ih =>
    have hothers := ih hts.tail.tail
    have hfirst := hts.head hname
    rw [List.all_cons, hothers, Bool.and_true]
    exact hfirst

/-- The parameters of a derivation are names. -/
theorem params_wellFormed {ts : List Token} {names : List Ident} (h : Params ts names)
    (hts : Throughout Named ts) : names.all (isName ·.name) = true := by
  cases h with
  | none => rfl
  | some h => exact names_wellFormed h hts

/-- The call that an arrow stands for is well formed if its sides are. -/
theorem applyArrow_wellFormed {value target e : Ast.Expr} {line : Nat}
    (h : applyArrow value target line = .ok e) (hvalue : value.wellFormed = true)
    (htarget : target.wellFormed = true) : e.wellFormed = true := by
  unfold applyArrow at h
  split at h
  · cases h
    simp only [Ast.Expr.wellFormed, Ast.wellFormedList, Bool.and_eq_true] at htarget ⊢
    exact ⟨htarget.1, hvalue, htarget.2⟩
  · cases h

/-- Lowering goes down a level before anything else. -/
theorem desugar_eq_ok {depth : Depth} {e : Expr} {e' : Ast.Expr} (h : e.desugar depth = .ok e') :
    ∃ inner, depth.down? = some inner := by
  rw [Expr.desugar.eq_def] at h
  split at h
  · cases h
  · next inner hinner => exact ⟨inner, hinner⟩

mutual

/-- What lowering makes of a derived expression is well formed. -/
theorem derives_wellFormed {s : Stratum} {ts : List Token} {e : Expr} {e' : Ast.Expr}
    {depth : Depth} (h : Derives s ts e) (hts : Throughout Named ts)
    (he : e.desugar depth = .ok e') : e'.wellFormed = true := by
  obtain ⟨inner, hinner⟩ := desugar_eq_ok he
  match h with
  | .arrow hl _ hr =>
    rw [Expr.desugar, hinner] at he
    obtain ⟨l', hl', he⟩ := bind_eq_ok he
    obtain ⟨r', hr', he⟩ := bind_eq_ok he
    exact applyArrow_wellFormed he (derives_wellFormed hl hts.left hl')
      (derives_wellFormed hr hts.right.tail hr')
  | .binary op hl _ hr =>
    rw [Expr.desugar, hinner] at he
    obtain ⟨l', hl', he⟩ := bind_eq_ok he
    obtain ⟨r', hr', he⟩ := bind_eq_ok he
    cases he
    rw [Ast.Expr.wellFormed, derives_wellFormed hl hts.left hl',
      derives_wellFormed hr hts.right.tail hr']
    rfl
  | .unary op _ h =>
    rw [Expr.desugar, hinner] at he
    obtain ⟨operand', hoperand, he⟩ := bind_eq_ok he
    cases he
    rw [Ast.Expr.wellFormed]
    exact derives_wellFormed h hts.tail hoperand
  | .call hcallee _ hargs _ =>
    rw [Expr.desugar, hinner] at he
    obtain ⟨callee', hcallee', he⟩ := bind_eq_ok he
    obtain ⟨args', hargs', he⟩ := bind_eq_ok he
    cases he
    rw [Ast.Expr.wellFormed, derives_wellFormed hcallee hts.left hcallee',
      args_wellFormed hargs hts.right.tail.left hargs']
    rfl
  | .index harray _ hindex _ =>
    rw [Expr.desugar, hinner] at he
    obtain ⟨array', harray', he⟩ := bind_eq_ok he
    obtain ⟨index', hindex', he⟩ := bind_eq_ok he
    cases he
    rw [Ast.Expr.wellFormed, derives_wellFormed harray hts.left harray',
      derives_wellFormed hindex hts.right.tail.left hindex']
    rfl
  | .integer _ hrange =>
    rw [Expr.desugar, hinner] at he
    cases he
    simp [Ast.Expr.wellFormed, hrange]
  | .kwTrue _ | .kwFalse _ =>
    rw [Expr.desugar, hinner] at he
    cases he
    rfl
  | .ident ht =>
    rw [Expr.desugar, hinner] at he
    cases he
    exact hts.head ht
  | .group _ h _ => exact derives_wellFormed h hts.tail.left he
  | .function _ hparams _ hbody =>
    rw [Expr.desugar, hinner] at he
    obtain ⟨body', hbody', he⟩ := bind_eq_ok he
    cases he
    rw [Ast.Expr.wellFormed, params_wellFormed hparams hts.tail.left,
      braces_wellFormed hbody hts.tail.right.tail hbody']
    rfl
  | .array _ helements _ =>
    rw [Expr.desugar, hinner] at he
    obtain ⟨elements', helements', he⟩ := bind_eq_ok he
    cases he
    exact args_wellFormed helements hts.tail.left helements'
  | .cond _ hcondition hconsequence =>
    rw [Expr.desugar, hinner] at he
    obtain ⟨condition', hcondition', he⟩ := bind_eq_ok he
    obtain ⟨consequence', hconsequence', he⟩ := bind_eq_ok he
    cases he
    rw [Ast.Expr.wellFormed, derives_wellFormed hcondition hts.tail.left hcondition',
      braces_wellFormed hconsequence hts.tail.right hconsequence']
    rfl
  | .condElse _ hcondition hconsequence _ halternative =>
    rw [Expr.desugar, hinner] at he
    obtain ⟨condition', hcondition', he⟩ := bind_eq_ok he
    obtain ⟨consequence', hconsequence', he⟩ := bind_eq_ok he
    obtain ⟨alternative', halternative', he⟩ := bind_eq_ok he
    cases he
    rw [Ast.Expr.wellFormed, derives_wellFormed hcondition hts.tail.left hcondition',
      braces_wellFormed hconsequence hts.tail.right.left hconsequence',
      braces_wellFormed halternative hts.tail.right.right.tail halternative']
    rfl
  | .climb _ h => exact derives_wellFormed h hts he
termination_by structural h

/-- What lowering makes of derived arguments is well formed. -/
theorem args_wellFormed {ts : List Token} {es : List Expr} {es' : List Ast.Expr} {depth : Depth}
    (h : Args ts es) (hts : Throughout Named ts) (hes : desugarList depth es = .ok es') :
    Ast.wellFormedList es' = true := by
  match h with
  | .none =>
    cases hes
    rfl
  | .some h => exact items_wellFormed h hts hes
termination_by structural h

/-- What lowering makes of derived expressions is well formed. -/
theorem items_wellFormed {ts : List Token} {es : List Expr} {es' : List Ast.Expr} {depth : Depth}
    (h : Items ts es) (hts : Throughout Named ts) (hes : desugarList depth es = .ok es') :
    Ast.wellFormedList es' = true := by
  match h with
  | .last h =>
    obtain ⟨first', hfirst, hes⟩ := bind_eq_ok hes
    cases hes
    rw [Ast.wellFormedList, derives_wellFormed h hts hfirst]
    rfl
  | .cons h _ hothers =>
    obtain ⟨first', hfirst, hes⟩ := bind_eq_ok hes
    obtain ⟨others', hothers', hes⟩ := bind_eq_ok hes
    cases hes
    rw [Ast.wellFormedList, derives_wellFormed h hts.left hfirst,
      items_wellFormed hothers hts.right.tail hothers']
    rfl
termination_by structural h

/-- What lowering makes of a derived block is well formed. -/
theorem braces_wellFormed {ts : List Token} {body : Block} {body' : Ast.Block} {depth : Depth}
    (h : Braces ts body) (hts : Throughout Named ts) (hbody : body.desugar depth = .ok body') :
    body'.wellFormed = true := by
  match h with
  | .mk _ hss _ =>
    obtain ⟨ss', hss', hbody⟩ := bind_eq_ok hbody
    cases hbody
    exact statements_wellFormed hss hts.tail.left hss'
termination_by structural h

/-- What lowering makes of a derived statement is well formed. -/
theorem statement_wellFormed {ts : List Token} {s : Stmt} {s' : Ast.Stmt} {depth : Depth}
    (h : Statement ts s) (hts : Throughout Named ts) (hs : s.desugar depth = .ok s') :
    s'.wellFormed = true := by
  match h with
  | .var _ hname _ h =>
    obtain ⟨value', hvalue, hs⟩ := bind_eq_ok hs
    cases hs
    rw [Ast.Stmt.wellFormed, hts.tail.head hname,
      derives_wellFormed h hts.tail.tail.tail hvalue]
    rfl
  | .ret _ h =>
    obtain ⟨value', hvalue, hs⟩ := bind_eq_ok hs
    cases hs
    exact derives_wellFormed h hts.tail hvalue
  | .expr h =>
    obtain ⟨value', hvalue, hs⟩ := bind_eq_ok hs
    cases hs
    exact derives_wellFormed h hts hvalue
termination_by structural h

/-- What lowering makes of derived statements is well formed. -/
theorem statements_wellFormed {ts : List Token} {ss : List Stmt} {ss' : List Ast.Stmt}
    {depth : Depth} (h : Statements ts ss) (hts : Throughout Named ts)
    (hss : desugarStatements depth ss = .ok ss') : Ast.wellFormedStatements ss' = true := by
  match h with
  | .nil =>
    cases hss
    rfl
  | .last h =>
    obtain ⟨first', hfirst, hss⟩ := bind_eq_ok hss
    cases hss
    rw [Ast.wellFormedStatements, statement_wellFormed h hts hfirst]
    rfl
  | .cons h _ hothers =>
    obtain ⟨first', hfirst, hss⟩ := bind_eq_ok hss
    obtain ⟨others', hothers', hss⟩ := bind_eq_ok hss
    cases hss
    rw [Ast.wellFormedStatements, statement_wellFormed h hts.left hfirst,
      statements_wellFormed hothers hts.right.tail hothers']
    rfl
  | .closed h _ _ hothers =>
    obtain ⟨first', hfirst, hss⟩ := bind_eq_ok hss
    obtain ⟨others', hothers', hss⟩ := bind_eq_ok hss
    cases hss
    rw [Ast.wellFormedStatements, statement_wellFormed h hts.left hfirst,
      statements_wellFormed hothers hts.right hothers']
    rfl
termination_by structural h

end

end EtherLang.Surface

namespace EtherLang

open Surface Surface.Grammar Surface.Parser

/-- Every program that reading returns is well formed, whatever the depth. -/
theorem wellFormed_of_parse {depth : Depth} {source : String} {p : Ast.Program}
    (h : parse depth source = .ok p) : p.wellFormed = true := by
  obtain ⟨ss, hss, hp⟩ := bind_eq_ok h
  have hderived : Statements (tokenStream source).tokens ss := statements_sound hss
  have hnamed : Throughout Named (tokenStream source).tokens :=
    fun t ht hkind => isName_of_mem_scanFrom ht hkind
  match hdesugar : desugarStatements depth ss with
  | .error e =>
    rw [desugar, hdesugar] at hp
    cases hp
  | .ok ss' =>
    rw [desugar, hdesugar] at hp
    cases hp
    exact statements_wellFormed hderived hnamed hdesugar

end EtherLang
