import EtherLang.Integer
import EtherLang.Surface
import EtherLang.Text.Decimal

/-!
# The grammar of surface trees

The grammar over tokens, written down without the parser. Expressions are layered into strata: an
operator takes its left operand from its own stratum and its right operand from the next tighter
one, so operators of one strength group to the left. Every rule names the tree that it builds, with
the line of the token that makes it, so a derivation relates a list of tokens to one tree.

A statement ends in a semicolon. The semicolon may be missing behind the last statement of a list,
and behind an expression statement that is an `if`, provided that the next token does not continue
the expression.
-/

namespace EtherLang.Surface

/-- The strata of expressions, from the weakest operators to the expressions that need none. -/
inductive Stratum where
  | arrow
  | equality
  | sum
  | product
  | unary
  | trailer
  | primary
  deriving DecidableEq, Repr

namespace Stratum

/-- The next tighter stratum; nothing is tighter than a primary expression. -/
def tighter : Stratum → Stratum
  | arrow => equality
  | equality => sum
  | sum => product
  | product => unary
  | unary => trailer
  | trailer | primary => primary

/-- The strength of the operators of a stratum; primary expressions hold together more strongly
than anything. -/
def binding : Stratum → Nat
  | arrow => Binding.arrow
  | equality => Binding.equality
  | sum => Binding.sum
  | product => Binding.product
  | unary => Binding.unary
  | trailer => Binding.trailer
  | primary => Binding.trailer + 1

end Stratum

/-- The stratum in which an operator with two operands combines them. -/
def stratumOf : BinaryOp → Stratum
  | .add | .sub => .sum
  | .mul | .div => .product
  | .equal | .notEqual => .equality

/-- Whether a statement is an `if`, which ends in a brace and needs no semicolon. -/
def Stmt.isClosed : Stmt → Bool
  | .expr e _ => e.isCond
  | _ => false

namespace Grammar

/-- The tokens that continue an expression that they stand behind. -/
def continuesExpr : TokenKind → Bool
  | .arrow | .equal | .notEqual | .plus | .minus | .star | .slash => true
  | .leftParen | .leftBracket => true
  | _ => false

/-- One or more names with commas between them. -/
inductive Names : List Token → List Ident → Prop
  | last {name : Token} : name.kind = .ident → Names [name] [⟨name.text, name.line⟩]
  | cons {name comma : Token} {ts : List Token} {names : List Ident} :
    name.kind = .ident → comma.kind = .comma → Names ts names →
    Names (name :: comma :: ts) (⟨name.text, name.line⟩ :: names)

/-- The parameters between the bars of a function. -/
inductive Params : List Token → List Ident → Prop
  | none : Params [] []
  | some {ts : List Token} {names : List Ident} : Names ts names → Params ts names

mutual

/-- The tokens derive the expression in the stratum. -/
inductive Derives : Stratum → List Token → Expr → Prop
  | arrow {ls rs : List Token} {t : Token} {l r : Expr} :
    Derives .arrow ls l → t.kind = .arrow → Derives .equality rs r →
    Derives .arrow (ls ++ t :: rs) (.arrow l r t.line)
  | binary (op : BinaryOp) {ls rs : List Token} {t : Token} {l r : Expr} :
    Derives (stratumOf op) ls l → t.kind = op.tokenKind → Derives (stratumOf op).tighter rs r →
    Derives (stratumOf op) (ls ++ t :: rs) (.binary op l r t.line)
  | unary (op : UnaryOp) {ts : List Token} {t : Token} {e : Expr} :
    t.kind = op.tokenKind → Derives .unary ts e → Derives .unary (t :: ts) (.unary op e t.line)
  | call {cs ts : List Token} {t close : Token} {callee : Expr} {args : List Expr} :
    Derives .trailer cs callee → t.kind = .leftParen → Args ts args → close.kind = .rightParen →
    Derives .trailer (cs ++ t :: (ts ++ [close])) (.call callee args t.line)
  | index {cs ts : List Token} {t close : Token} {array index : Expr} :
    Derives .trailer cs array → t.kind = .leftBracket → Derives .arrow ts index →
    close.kind = .rightBracket →
    Derives .trailer (cs ++ t :: (ts ++ [close])) (.index array index t.line)
  | integer {t : Token} :
    t.kind = .integer → Text.ofAsciiDigits t.text ≤ Integer.maxValue →
    Derives .primary [t] (.integer t.text t.line)
  | kwTrue {t : Token} : t.kind = .kwTrue → Derives .primary [t] (.boolean true t.line)
  | kwFalse {t : Token} : t.kind = .kwFalse → Derives .primary [t] (.boolean false t.line)
  | ident {t : Token} : t.kind = .ident → Derives .primary [t] (.ident t.text t.line)
  | group {ts : List Token} {t close : Token} {e : Expr} :
    t.kind = .leftParen → Derives .arrow ts e → close.kind = .rightParen →
    Derives .primary (t :: (ts ++ [close])) e
  | function {ps bs : List Token} {t close : Token} {names : List Ident} {body : Block} :
    t.kind = .bar → Params ps names → close.kind = .bar → Braces bs body →
    Derives .primary (t :: (ps ++ close :: bs)) (.function names body t.line)
  | array {ts : List Token} {t close : Token} {elements : List Expr} :
    t.kind = .leftBracket → Args ts elements → close.kind = .rightBracket →
    Derives .primary (t :: (ts ++ [close])) (.array elements t.line)
  | cond {cs bs : List Token} {t : Token} {condition : Expr} {consequence : Block} :
    t.kind = .kwIf → Derives .arrow cs condition → Braces bs consequence →
    Derives .primary (t :: (cs ++ bs)) (.cond condition consequence none t.line)
  | condElse {cs bs ds : List Token} {t u : Token} {condition : Expr}
    {consequence alternative : Block} :
    t.kind = .kwIf → Derives .arrow cs condition → Braces bs consequence → u.kind = .kwElse →
    Braces ds alternative →
    Derives .primary (t :: (cs ++ (bs ++ u :: ds)))
      (.cond condition consequence (some alternative) t.line)
  /-- What is tighter may stand wherever something looser may. -/
  | climb {s : Stratum} {ts : List Token} {e : Expr} :
    s ≠ .primary → Derives s.tighter ts e → Derives s ts e

/-- One or more expressions with commas between them. -/
inductive Items : List Token → List Expr → Prop
  | last {ts : List Token} {e : Expr} : Derives .arrow ts e → Items ts [e]
  | cons {ts us : List Token} {comma : Token} {e : Expr} {es : List Expr} :
    Derives .arrow ts e → comma.kind = .comma → Items us es → Items (ts ++ comma :: us) (e :: es)

/-- The arguments of a call or the elements of an array. -/
inductive Args : List Token → List Expr → Prop
  | none : Args [] []
  | some {ts : List Token} {es : List Expr} : Items ts es → Args ts es

/-- Statements between a pair of braces. -/
inductive Braces : List Token → Block → Prop
  | mk {ts : List Token} {t close : Token} {ss : List Stmt} :
    t.kind = .leftBrace → Statements ts ss → close.kind = .rightBrace →
    Braces (t :: (ts ++ [close])) (.mk ss t.line)

/-- One statement, without its semicolon. -/
inductive Statement : List Token → Stmt → Prop
  | var {t name equals : Token} {ts : List Token} {e : Expr} :
    t.kind = .kwVar → name.kind = .ident → equals.kind = .assign → Derives .arrow ts e →
    Statement (t :: name :: equals :: ts) (.var ⟨name.text, name.line⟩ e t.line)
  | ret {t : Token} {ts : List Token} {e : Expr} :
    t.kind = .kwReturn → Derives .arrow ts e → Statement (t :: ts) (.ret e t.line)
  | expr {t : Token} {ts : List Token} {e : Expr} :
    Derives .arrow (t :: ts) e → Statement (t :: ts) (.expr e t.line)

/-- A list of statements with what stands between them. -/
inductive Statements : List Token → List Stmt → Prop
  | nil : Statements [] []
  | last {ts : List Token} {s : Stmt} : Statement ts s → Statements ts [s]
  | cons {ts us : List Token} {semicolon : Token} {s : Stmt} {ss : List Stmt} :
    Statement ts s → semicolon.kind = .semicolon → Statements us ss →
    Statements (ts ++ semicolon :: us) (s :: ss)
  /-- An `if` needs no semicolon where the next token does not continue it. -/
  | closed {ts us : List Token} {next : Token} {s : Stmt} {ss : List Stmt} :
    Statement ts s → s.isClosed = true → continuesExpr next.kind = false →
    Statements (next :: us) ss → Statements (ts ++ next :: us) (s :: ss)

end

/-- Every token of a list has a property. -/
def Throughout (p : Token → Prop) (ts : List Token) : Prop :=
  ∀ t ∈ ts, p t

section Throughout

variable {p : Token → Prop} {t : Token} {ts us : List Token}

/-- No tokens have every property. -/
@[simp] theorem throughout_nil : Throughout p [] :=
  nofun

/-- A property of all tokens is one of the first token and of the others. -/
@[simp] theorem throughout_cons : Throughout p (t :: ts) ↔ p t ∧ Throughout p ts :=
  List.forall_mem_cons

/-- A property of all tokens is one of the tokens of both parts. -/
@[simp] theorem throughout_append :
    Throughout p (ts ++ us) ↔ Throughout p ts ∧ Throughout p us :=
  List.forall_mem_append

/-- A property of all tokens holds of the tokens of the first part. -/
theorem Throughout.left (h : Throughout p (ts ++ us)) : Throughout p ts :=
  (throughout_append.mp h).1

/-- A property of all tokens holds of the tokens of the last part. -/
theorem Throughout.right (h : Throughout p (ts ++ us)) : Throughout p us :=
  (throughout_append.mp h).2

/-- A property of all tokens holds of the first token. -/
theorem Throughout.head (h : Throughout p (t :: ts)) : p t :=
  (throughout_cons.mp h).1

/-- A property of all tokens holds of the tokens behind the first. -/
theorem Throughout.tail (h : Throughout p (t :: ts)) : Throughout p ts :=
  (throughout_cons.mp h).2

end Throughout

/-- The tokens that an expression can begin with. -/
def startsExpr : TokenKind → Bool
  | .integer | .kwTrue | .kwFalse | .ident => true
  | .leftParen | .minus | .bang | .bar | .leftBracket | .kwIf => true
  | _ => false

/-- The tokens that a statement can begin with. -/
def startsStmt : TokenKind → Bool
  | .kwVar | .kwReturn => true
  | kind => startsExpr kind

/-- Every expression begins with a token that an expression can begin with. -/
theorem Derives.exists_head {s : Stratum} {ts : List Token} {e : Expr} (h : Derives s ts e) :
    ∃ t us, ts = t :: us ∧ startsExpr t.kind = true := by
  match h with
  | .arrow hl _ _ | .binary _ hl _ _ | .call hl _ _ _ | .index hl _ _ _ =>
    obtain ⟨t, us, rfl, ht⟩ := hl.exists_head
    exact ⟨t, _, rfl, ht⟩
  | .climb _ h => exact h.exists_head
  | .unary op ht _ => exact ⟨_, _, rfl, by cases op <;> rw [ht] <;> rfl⟩
  | .integer ht _ | .kwTrue ht | .kwFalse ht | .ident ht => exact ⟨_, _, rfl, by rw [ht]; rfl⟩
  | .group ht _ _ | .function ht _ _ _ | .array ht _ _ => exact ⟨_, _, rfl, by rw [ht]; rfl⟩
  | .cond ht _ _ | .condElse ht _ _ _ _ => exact ⟨_, _, rfl, by rw [ht]; rfl⟩

/-- One or more expressions begin with a token that an expression can begin with. -/
theorem Items.exists_head {ts : List Token} {es : List Expr} (h : Items ts es) :
    ∃ t us, ts = t :: us ∧ startsExpr t.kind = true := by
  cases h with
  | last he => exact he.exists_head
  | cons he _ _ =>
    obtain ⟨t, us, rfl, ht⟩ := he.exists_head
    exact ⟨t, _, rfl, ht⟩

/-- Every statement begins with a token that a statement can begin with. -/
theorem Statement.exists_head {ts : List Token} {s : Stmt} (h : Statement ts s) :
    ∃ t us, ts = t :: us ∧ startsStmt t.kind = true := by
  cases h with
  | var ht _ _ _ | ret ht _ => exact ⟨_, _, rfl, by rw [ht]; rfl⟩
  | expr he =>
    obtain ⟨t, us, heq, ht⟩ := he.exists_head
    refine ⟨t, us, heq, ?_⟩
    unfold startsStmt
    split
    · rfl
    · rfl
    · exact ht

/-- Statements without tokens are none, and others begin with a token that a statement can begin
with. -/
theorem Statements.exists_head {ts : List Token} {ss : List Stmt} (h : Statements ts ss) :
    (ts = [] ∧ ss = []) ∨ ∃ t us, ts = t :: us ∧ startsStmt t.kind = true := by
  cases h with
  | nil => exact .inl ⟨rfl, rfl⟩
  | last hs => exact .inr hs.exists_head
  | cons hs _ _ | closed hs _ _ _ =>
    obtain ⟨t, us, rfl, ht⟩ := hs.exists_head
    exact .inr ⟨t, _, rfl, ht⟩

/-- The first token of a list of statements can begin one. -/
theorem Statements.startsStmt_head {t : Token} {ts : List Token} {ss : List Stmt}
    (h : Statements (t :: ts) ss) : startsStmt t.kind = true := by
  obtain ⟨⟨⟩, _⟩ | ⟨u, us, heq, ht⟩ := h.exists_head
  cases heq
  exact ht

/-- What is tighter may stand in every looser stratum, however many strata lie between. -/
theorem Derives.of_binding_le {s s' : Stratum} {ts : List Token} {e : Expr} (h : Derives s ts e)
    (hle : s'.binding ≤ s.binding) : Derives s' ts e := by
  by_cases heq : s' = s
  · exact heq ▸ h
  · have hprimary : s' ≠ .primary := by
      rintro rfl
      revert hle heq
      cases s <;> decide
    have hstep : s'.binding < s'.tighter.binding ∧ s'.tighter.binding ≤ s.binding := by
      revert hle heq
      cases s <;> cases s' <;> decide
    exact .climb hprimary (h.of_binding_le hstep.2)
termination_by s.binding - s'.binding

end Grammar

end EtherLang.Surface
