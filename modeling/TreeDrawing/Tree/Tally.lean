import TreeDrawing.Tree.Walk

/-!
# The tally of a walk

A visitor that only counts: how many nodes were entered, how many were left, and how many were open
at once at the most.
-/

namespace TreeDrawing

/-- What a walk has told so far, in numbers. -/
structure Tally where
  entered : Nat := 0
  left : Nat := 0
  /-- The greatest number of nodes that were open at once. -/
  deepest : Nat := 0
  deriving DecidableEq

namespace Tally

/-- How many nodes are open. -/
def opened (t : Tally) : Nat := t.entered - t.left

/-- Counts a node that is entered. -/
def enter (t : Tally) : Tally :=
  { t with entered := t.entered + 1, deepest := max t.deepest (t.opened + 1) }

/-- Counts a node that is left. -/
def leave (t : Tally) : Tally := { t with left := t.left + 1 }

/-- Counts what it is told. -/
def visitor {ε : Type} : Visitor (Log.Logging ε Tally) where
  enter _ := Log.Logging.update enter
  leave := Log.Logging.update leave

end Tally

end TreeDrawing
