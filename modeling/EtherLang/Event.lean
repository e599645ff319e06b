import EtherLang.Ast.Render
import EtherLang.Store

/-!
# Records of what the interpreter does

On request the interpreter tells about its steps. Every record names the part that made it.
-/

namespace EtherLang

/-- The steps that are put on record. -/
inductive Event where
  | running (path : String)
  | limitSet (limit : Nat)
  | parsed (count : Nat)
  | lowered (program : Ast.Program)
  | evaluating (count : Nat)
  /-- A closure was made on a line in a frame, which is given as it was then. -/
  | closure (line : Int) (captured : Frame)
  deriving Repr

namespace Event

/-- The text of a record. -/
def message : Event → String
  | running path => "ether.runner: running " ++ path
  | limitSet limit => "ether.runner: recursion limit set to " ++ toString limit
  | parsed count => "ether.parser: parsed " ++ toString count ++ " top-level statements"
  | lowered program => "ether.lower: lowered program: " ++ program.render
  | evaluating count => "ether.runner: evaluating " ++ toString count ++ " statements"
  | closure line captured =>
    "ether.eval.fn: closure created at line " ++ toString line ++ " capturing " ++ captured.display

/-- Records as lines of text. -/
def log (events : List Event) : String :=
  String.join (events.map fun e => "DEBUG " ++ e.message ++ "\n")

end Event

end EtherLang
