import EtherLang.Ast.Render
import EtherLang.Builtin

/-!
# Values

What evaluation computes with. A closure remembers the frame it was made in by its number. The
display form of a value without builtins is source text for it.
-/

namespace EtherLang

/-- The number of a frame of variables. -/
abbrev FrameId := Nat

/-- The values of the language. -/
inductive Value where
  | null
  | int (n : Int)
  | bool (b : Bool)
  | array (elements : List Value)
  | closure (params : List Ident) (body : Ast.Block) (captured : FrameId)
  | builtin (b : Builtin)
  deriving Repr

/-- The kinds of values that messages tell apart. -/
inductive ValueKind where
  | null
  | integer
  | boolean
  | array
  | function
  | builtin
  deriving DecidableEq, Repr

/-- The name under which messages mention a kind of value. -/
def ValueKind.name : ValueKind → String
  | null => "NULL"
  | integer => "INTEGER"
  | boolean => "BOOLEAN"
  | array => "ARRAY"
  | function => "FUNCTION"
  | builtin => "BUILTIN"

namespace Value

/-- The kind of a value. -/
def kind : Value → ValueKind
  | null => .null
  | int _ => .integer
  | bool _ => .boolean
  | array _ => .array
  | closure .. => .function
  | builtin _ => .builtin

/-- Whether a value counts as true: everything does but `false` and null, zero included. -/
def truthy : Value → Bool
  | bool b => b
  | null => false
  | _ => true

mutual

/-- The display form of a value. -/
def display : Value → String
  | null => "null"
  | int n => toString n
  | bool b => if b then "true" else "false"
  | array elements => "[" ++ displayList elements ++ "]"
  | closure params body _ => "|" ++ Ast.renderParams params ++ "| " ++ body.render
  | builtin b => "<builtin " ++ b.name ++ ">"

/-- The display forms of values with commas between them. -/
def displayList : List Value → String
  | [] => ""
  | [last] => last.display
  | first :: others => first.display ++ ", " ++ displayList others

end

mutual

/-- How deeply arrays are nested in a value, which is how many levels its display goes down. -/
def nesting : Value → Nat
  | array elements => nestingList elements + 1
  | _ => 0

/-- How deeply arrays are nested in the deepest of some values. -/
def nestingList : List Value → Nat
  | [] => 0
  | first :: others => max first.nesting (nestingList others)

end

mutual

/-- Whether two values, computed apart from each other, are equal. Values without functions are
compared by content; functions that were made separately are never equal. `none` if the comparison
would go down more than `levels` levels of arrays. -/
def sameData? (levels : Nat) : Value → Value → Option Bool
  | null, null => some true
  | int m, int n => some (m == n)
  | bool b, bool c => some (b == c)
  | array xs, array ys =>
    match levels with
    | 0 => none
    | levels + 1 => sameElements? levels xs ys
  | _, _ => some false

/-- Whether two lists of values, computed apart from each other, are equal. They are compared from
the left up to the first difference. -/
def sameElements? (levels : Nat) : List Value → List Value → Option Bool
  | [], [] => some true
  | x :: xs, y :: ys =>
    match x.sameData? levels y with
    | some true => sameElements? levels xs ys
    | other => other
  | _, _ => some false

end

end Value

end EtherLang
