import Mathlib.Data.Nat.SuccPred
import Mathlib.Logic.Function.Iterate
import TreeDrawing.Proofs.Tree.Walk
import TreeDrawing.Tree.Pending

/-!
# Loops over pending trees

Counting the nodes of a tree and releasing a tree are the same loop with different bodies: a node is
taken from the tree that was added last, and its children are added in place of it. The nodes do not
come in the order of a walk, since the last of several children is taken first, and then all that is
below it. What holds is that every round takes one node off the list and loses none.

Both facts are about one round. The number of rounds is `Forest.iterate_advance_eq_nil_iff`, and
what is taken in all of them is `Forest.map_fst_release_perm`; each is by induction along the loop,
`Forest.induction_on_take`.

## Releasing

A tree that is released empties its list of pending trees by the same loop, and every node that is
taken is released in turn. That this does not pile up is no matter of the depth of the tree: when a
node is released its children are on the list, so there is nothing left to be taken from it.
-/

namespace TreeDrawing

/-! ## Rounds -/

namespace Forest

/-- What one round of the loop leaves pending; when nothing is pending, nothing changes. -/
def advance (pending : Forest) : Forest :=
  match pending.take? with
  | none => pending
  | some (_, rest) => rest

theorem advance_cons (n : Node) (cs pending : Forest) :
    advance (.node n cs :: pending) = cs.addAll pending := rfl

/-- What holds when nothing is pending, and before a round if it holds after it, holds always. -/
theorem induction_on_take {motive : Forest → Prop} (nil : motive [])
    (take : ∀ n cs rest, motive (addAll cs rest) → motive (.node n cs :: rest)) :
    ∀ pending, motive pending
  | [] => nil
  | .node n cs :: rest => take n cs rest (induction_on_take nil take (addAll cs rest))
termination_by pending => pending.size
decreasing_by
  rw [size_addAll, size, Tree.size]
  omega

theorem size_eq_zero_iff {pending : Forest} : pending.size = 0 ↔ pending = [] := by
  cases pending with
  | nil => simp [size]
  | cons t rest =>
    have hpos := t.size_pos
    refine iff_of_false ?_ (List.cons_ne_nil t rest)
    rw [size]
    omega

theorem size_advance (pending : Forest) : pending.advance.size = pending.size.pred := by
  match pending with
  | [] => rfl
  | .node n cs :: rest =>
    rw [advance_cons, size_addAll, size, Tree.size, Nat.add_assoc, Nat.add_comm 1]
    rfl

theorem size_iterate_advance (pending : Forest) (k : Nat) :
    (advance^[k] pending).size = pending.size - k := by
  have hsemiconj : Function.Semiconj size advance Nat.pred := size_advance
  rw [(hsemiconj.iterate_right k).eq, Nat.pred_iterate]

/-- The loop is at its end after as many rounds as there are nodes pending, and not before. -/
theorem iterate_advance_eq_nil_iff {pending : Forest} {k : Nat} :
    advance^[k] pending = [] ↔ pending.size ≤ k := by
  rw [← size_eq_zero_iff, size_iterate_advance, Nat.sub_eq_zero_iff_le]

/-! ## Nodes -/

theorem nodes_eq_flatMap (f : Forest) : nodes f = f.flatMap Tree.nodes := by
  induction f with
  | nil => rfl
  | cons t rest ih => rw [nodes, ih, List.flatMap_cons]

/-- Adding trees to those that are pending loses no node. -/
theorem nodes_addAll_perm (trees pending : Forest) :
    (nodes (trees.addAll pending)).Perm (nodes trees ++ nodes pending) := by
  rw [addAll, nodes_eq_flatMap, List.flatMap_append, nodes_eq_flatMap, nodes_eq_flatMap]
  exact (trees.reverse_perm.flatMap_right _).append_right _

end Forest

/-! ## Releasing -/

/-- How deep releases are nested in a release: not at all if nothing is taken. -/
def Release.nesting : Release → Nat
  | .run [] => 0
  | .run ((_, r) :: taken) => max (r.nesting + 1) (nesting (.run taken))

/-- Releasing a node without children takes nothing. -/
theorem Tree.release_single (n : Node) : (Tree.single n).release = .run [] := by
  rw [release, single, children_node, Forest.addAll, List.reverse_nil, List.nil_append,
    Forest.release]
  rfl

namespace Forest

theorem release_nil : release [] = [] := by
  rw [release]
  rfl

/-- The first round of the loop takes a node, moves its children to the list, and releases what is
left of it, which has nothing to take. -/
theorem release_cons (n : Node) (cs rest : Forest) :
    release (.node n cs :: rest) = (n, .run []) :: release (cs.addAll rest) := by
  rw [release]
  simp only [take?, Tree.release_single]

/-- Every node that is pending is taken. -/
theorem length_release (pending : Forest) : pending.release.length = pending.size := by
  induction pending using induction_on_take with
  | nil => rw [release_nil]; rfl
  | take n cs rest ih =>
    rw [release_cons, List.length_cons, ih, size_addAll, size, Tree.size]
    omega

/-- Every node is taken once, whatever the order. -/
theorem map_fst_release_perm (pending : Forest) :
    (pending.release.map Prod.fst).Perm (nodes pending) := by
  induction pending using induction_on_take with
  | nil => rw [release_nil]; rfl
  | take n cs rest ih =>
    rw [release_cons, List.map_cons, nodes, Tree.nodes, List.cons_append]
    exact (ih.trans (nodes_addAll_perm cs rest)).cons n

/-- In each round the tree that was added last is taken, its children are added to the list, and
what is left of it is released. -/
theorem exists_round {pending : Forest} {k : Nat} (hk : k < pending.size) : ∃ u rest,
    advance^[k] pending = u :: rest ∧ advance^[k + 1] pending = u.children.addAll rest ∧
      pending.release[k]? = some (u.root, (u.withChildren []).release) := by
  induction pending using induction_on_take generalizing k with
  | nil => exact absurd hk (Nat.not_lt_zero k)
  | take n cs rest ih =>
    rw [release_cons]
    cases k with
    | zero =>
      have hleft : ((Tree.node n cs).withChildren []).release = .run [] := Tree.release_single n
      exact ⟨.node n cs, rest, rfl, rfl, by rw [hleft]; rfl⟩
    | succ k =>
      have hrest : k < (cs.addAll rest).size := by
        rw [size, Tree.size] at hk
        rw [size_addAll]
        omega
      exact ih hrest

theorem nesting_release_le (pending : Forest) : (Release.run pending.release).nesting ≤ 1 := by
  induction pending using induction_on_take with
  | nil => rw [release_nil, Release.nesting]; exact Nat.zero_le 1
  | take n cs rest ih =>
    rw [release_cons, Release.nesting, Release.nesting, Nat.zero_add]
    exact Nat.max_le.2 ⟨Nat.le_refl 1, ih⟩

end Forest

/-- The nodes below the topmost one. -/
theorem Tree.size_children (t : Tree) : t.children.size = t.nodeCount - 1 := by
  cases t
  rw [nodeCount_eq_size, size, Nat.add_sub_cancel_left, children_node]

/-- **Releasing a tree.** The loop ends after one round less than the tree has nodes, and takes the
nodes below the topmost one, each once. In every round the children of the node that is taken are
moved to the list, and then what is left of it is released, which takes nothing. So releases are
never nested more than one deep. -/
theorem release_takes_descendants (t : Tree) : ∃ taken : List (Node × Release),
    let pending := t.children.addAll []
    t.release = .run taken ∧
    taken.length = t.nodeCount - 1 ∧
    (∀ k, Forest.advance^[k] pending = [] ↔ t.nodeCount - 1 ≤ k) ∧
    (∃ below, t.nodes = t.root :: below ∧ (taken.map Prod.fst).Perm below) ∧
    (∀ k : Fin taken.length, ∃ u rest, Forest.advance^[k] pending = u :: rest ∧
      Forest.advance^[k.val + 1] pending = u.children.addAll rest ∧
      taken[k] = (u.root, (u.withChildren []).release) ∧
      (u.withChildren []).release = .run []) ∧
    t.release.nesting ≤ 1 := by
  have hsize : (t.children.addAll []).size = t.nodeCount - 1 := by
    rw [Forest.size_addAll, t.size_children, Forest.size, Nat.add_zero]
  have hrelease : t.release = .run (Forest.release (t.children.addAll [])) := by rw [Tree.release]
  have hlength := Forest.length_release (t.children.addAll [])
  refine ⟨_, hrelease, hlength.trans hsize, fun k ↦ ?_, ⟨Forest.nodes t.children, ?_, ?_⟩,
    fun k ↦ ?_, ?_⟩
  · rw [Forest.iterate_advance_eq_nil_iff, hsize]
  · cases t
    rfl
  · have hperm := Forest.nodes_addAll_perm t.children []
    rw [Forest.nodes, List.append_nil] at hperm
    exact (Forest.map_fst_release_perm _).trans hperm
  · obtain ⟨u, rest, hround, hnext, htaken⟩ := Forest.exists_round (k.isLt.trans_eq hlength)
    refine ⟨u, rest, hround, hnext, ?_, Tree.release_single u.root⟩
    exact Option.some.inj ((List.getElem?_eq_getElem k.isLt).symm.trans htaken)
  · rw [hrelease]
    exact Forest.nesting_release_le _

end TreeDrawing
