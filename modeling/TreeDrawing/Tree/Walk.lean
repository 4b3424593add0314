import TreeDrawing.Log
import TreeDrawing.Tree.Basic

/-!
# Walking a tree

A walk tells a *visitor* about every node twice: when the node is entered, before its children, and
when it is left, after them. The visitor is told nothing else, and decides alone what to do with it.

## The loop and the recursion

`Tree.events` is what a walk has to tell, by recursion on the tree. `Tree.walk` itself does not
recurse into the tree. It keeps a *trail*: for every node that has been entered and not left, from
the innermost out, the children still to be visited. As long as the trail is not empty, its first
entry says what comes next: the next child is entered, or, if there is none, the node is left. The
trail loses one of its remaining events at every step, which is why the loop ends.
-/

namespace TreeDrawing

open Log

/-- What a walk tells. -/
inductive Event where
  | enter (n : Node)
  | leave
  deriving DecidableEq

mutual

/-- What there is to tell about a tree. -/
def Tree.events : Tree → List Event
  | .node n children => .enter n :: Forest.events children ++ [.leave]

/-- What there is to tell about the trees of a forest, one after the other. -/
def Forest.events : Forest → List Event
  | [] => []
  | t :: rest => t.events ++ Forest.events rest

end

/-- Whoever is told. -/
structure Visitor (m : Type → Type) where
  enter : Node → m Unit
  leave : m Unit

/-- Tells a visitor one event. -/
def Visitor.tell {m : Type → Type} (v : Visitor m) : Event → m Unit
  | .enter n => v.enter n
  | .leave => v.leave

/-! ## Trails -/

/-- For every node that is open, from the innermost out, the children still to be visited. -/
abbrev Trail := List Forest

namespace Trail

/-- What comes next on a trail, and the trail behind it. -/
def next? : Trail → Option (Event × Trail)
  | [] => none
  | [] :: up => some (.leave, up)
  | (.node n children :: rest) :: up => some (.enter n, children :: rest :: up)

/-- How many events remain on a trail: two for every node to come, and one for every open node. -/
def remaining : Trail → Nat
  | [] => 0
  | f :: up => 2 * f.size + 1 + remaining up

/-- Every step takes one event off the trail. -/
theorem remaining_of_next? {t up : Trail} {e : Event} (h : t.next? = some (e, up)) :
    t.remaining = up.remaining + 1 := by
  match t, h with
  | [] :: up, h =>
    simp only [next?, Option.some.injEq, Prod.mk.injEq] at h
    simp [remaining, Forest.size, ← h.2, Nat.add_comm]
  | (.node n children :: rest) :: up, h =>
    simp only [next?, Option.some.injEq, Prod.mk.injEq] at h
    simp only [remaining, Forest.size, Tree.size, ← h.2]
    omega

variable {m : Type → Type} [Monad m]

/-- Tells a visitor everything that remains on a trail. -/
@[specialize]
def run (v : Visitor m) (t : Trail) : m Unit :=
  match _h : t.next? with
  | none => pure ()
  | some (e, up) => do
    v.tell e
    run v up
termination_by t.remaining
decreasing_by
  rw [remaining_of_next? _h]
  exact Nat.lt_succ_self _

end Trail

/-! ## The walk -/

/-- Reported at the end of every walk. -/
def Log.Entry.walkComplete : Entry := ⟨.trace, "Walk complete"⟩

/-- Tells a visitor about a tree, and reports the end. -/
@[specialize]
def Tree.walk {m : Type → Type} [Monad m] [MonadLog m] (t : Tree) (v : Visitor m) : m Unit := do
  v.enter t.root
  Trail.run v [t.children]
  log .walkComplete

/-! ## Recording a walk -/

/-- Writes down what it is told, newest first. -/
def Event.recorder {ε : Type} : Visitor (Logging ε (List Event)) where
  enter n := Logging.update (.enter n :: ·)
  leave := Logging.update (.leave :: ·)

end TreeDrawing
