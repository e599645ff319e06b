/-!
# Bounds on nesting

Reading and lowering a program go down into its constructs. A depth says how many levels they may
still go down before the program counts as nested too deeply.
-/

namespace EtherLang

/-- The number of levels that are left, if there is a bound at all. -/
inductive Depth where
  | unbounded
  | atMost (levels : Nat)
  deriving DecidableEq, Repr

/-- The depth one level further down, if there is one. -/
def Depth.down? : Depth → Option Depth
  | unbounded => some unbounded
  | atMost 0 => none
  | atMost (levels + 1) => some (atMost levels)

end EtherLang
