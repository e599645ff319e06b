import EtherLang.Text.Quoted

/-!
# Builtin functions

The functions that a program finds without defining them. A table gives each of them a name, which
need not be the builtin's own name. A host may register further builtins; what it registers here
counts its arguments.
-/

namespace EtherLang

/-- The builtin functions. -/
inductive Builtin where
  /-- The number of elements of an array. -/
  | len
  /-- Applies a function to every element of an array. -/
  | map
  /-- Writes each argument on a line of its own. -/
  | puts
  /-- Returns the number of its arguments; registered by a host under `name`. -/
  | argCount (name : String)
  deriving DecidableEq, Repr

/-- A builtin's own name. -/
def Builtin.name : Builtin → String
  | len => "len"
  | map => "map"
  | puts => "puts"
  | argCount name => name

/-- The names under which a program finds builtins. -/
structure BuiltinTable where
  entries : List (String × Builtin)
  deriving DecidableEq, Repr

namespace BuiltinTable

/-- The builtins that every program finds. -/
def standard : BuiltinTable :=
  ⟨[("len", .len), ("map", .map), ("puts", .puts)]⟩

/-- The builtin of a name. -/
def find? (table : BuiltinTable) (name : String) : Option Builtin :=
  table.entries.lookup name

/-- The names of a table in ascending order. -/
def names (table : BuiltinTable) : List String :=
  (table.entries.map Prod.fst).mergeSort fun a b => !(b < a)

/-- Why a builtin cannot be registered: its name is taken. -/
structure Taken where
  name : String
  deriving DecidableEq, Repr

/-- The report on a name that is taken. -/
def Taken.message (e : Taken) : String :=
  "builtin " ++ Text.quoted e.name ++ " registered twice"

/-- Registers a builtin under its own name, which must be free. -/
def register (table : BuiltinTable) (builtin : Builtin) : Except Taken BuiltinTable :=
  match table.find? builtin.name with
  | some _ => .error ⟨builtin.name⟩
  | none => .ok ⟨table.entries ++ [(builtin.name, builtin)]⟩

/-- The table of the standard builtins under other names, given as pairs of a name and a builtin's
own name; names of no standard builtin are left out. -/
def aliases (pairs : List (String × String)) : BuiltinTable :=
  ⟨pairs.filterMap fun (name, own) => (standard.find? own).map (name, ·)⟩

end BuiltinTable

end EtherLang
