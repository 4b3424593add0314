import TreeDrawing.Tree.Basic

/-!
# Pending trees

A loop over the nodes of a tree that needs no particular order keeps a list of *pending* trees. It
takes the tree that was added last, and adds the children of that tree in its place. Each such step
takes one node off the list, so the loop ends when it has seen every node once.

Two loops work this way: one counts the nodes, the other releases them.
-/

namespace TreeDrawing

namespace Forest

/-- Adds trees to the pending ones, in order, so that the last of them is the first to be taken.
The head of a list of pending trees is the one added last. -/
def addAll (trees pending : Forest) : Forest := trees.reverse ++ pending

/-- Takes the topmost node of the tree that was added last, and adds its children instead. -/
def take? : Forest → Option (Node × Forest)
  | [] => none
  | .node n children :: pending => some (n, addAll children pending)

theorem size_addAll (trees pending : Forest) :
    (trees.addAll pending).size = trees.size + pending.size := by
  rw [addAll, size_append, size_reverse]

/-- Taking a node leaves one node less. -/
theorem size_of_take? {pending rest : Forest} {n : Node} (h : pending.take? = some (n, rest)) :
    pending.size = rest.size + 1 := by
  match pending, h with
  | .node n children :: pending, h =>
    simp only [take?, Option.some.injEq, Prod.mk.injEq] at h
    rw [← h.2, size_addAll, size, Tree.size]
    omega

/-- Counts the nodes of pending trees, beginning with `n`. -/
def countFrom (n : Nat) (pending : Forest) : Nat :=
  match _h : pending.take? with
  | none => n
  | some (_, pending) => countFrom (n + 1) pending
termination_by pending.size
decreasing_by
  rw [size_of_take? _h]
  exact Nat.lt_succ_self _

end Forest

/-- How many nodes a tree has. -/
def Tree.nodeCount (t : Tree) : Nat := Forest.countFrom 0 (Forest.addAll [t] [])

/-- The loop counts the nodes that are still pending. -/
theorem Forest.countFrom_eq (n : Nat) (pending : Forest) :
    Forest.countFrom n pending = n + pending.size := by
  fun_induction Forest.countFrom n pending with
  | case1 n pending h =>
    cases pending with
    | nil => rfl
    | cons t pending =>
      cases t
      simp [take?] at h
  | case2 n pending m rest h ih =>
    rw [ih, size_of_take? h]
    omega

/-- Counting by a list of pending trees and counting by the structure give the same. -/
theorem Tree.nodeCount_eq_size (t : Tree) : t.nodeCount = t.size := by
  rw [nodeCount, Forest.countFrom_eq, Forest.size_addAll]
  simp [Forest.size]

/-! ## Releasing a tree -/

/-- What happened when a tree was released: which nodes were taken from the list of pending trees,
in order, and what happened when each of them was released in turn. -/
inductive Release where
  | run (taken : List (Node × Release))

mutual

/-- Releases a tree: its children are moved to a list of pending trees, and the list is emptied. -/
def Tree.release (t : Tree) : Release := .run (Forest.release (t.children.addAll []))
termination_by (t.children.size, 1)
decreasing_by
  rw [Prod.lex_def, Forest.size_addAll]
  simp [Forest.size]

/-- Empties a list of pending trees. Every node that is taken is released at once; its children
are on the list by then. -/
def Forest.release (pending : Forest) : List (Node × Release) :=
  match _h : pending.take? with
  | none => []
  | some (n, pending) => (n, (Tree.single n).release) :: Forest.release pending
termination_by (pending.size, 0)
decreasing_by
  · rw [Prod.lex_def, Forest.size_of_take? _h]
    simp [Tree.single, Forest.size]
  · rw [Prod.lex_def, Forest.size_of_take? _h]
    simp

end

end TreeDrawing
