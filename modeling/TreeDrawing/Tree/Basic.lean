/-!
# Parse trees

A parse tree is a rose tree whose nodes carry a kind, an optional value and an optional token. A
node with a value stands for a rule or a capture of the grammar; a node without one stands for a
piece of the input, whose text is the token. The library does not enforce this reading: any
combination of the three is a node, and the drawing decides what each combination looks like.

## Two descriptions of one tree

Trees are walked, counted and taken apart by loops over explicit work lists, because they may be
far deeper than a call stack. The functions of this module are the other description: `Tree.size`
and `Tree.levels` follow the structure of the tree, and are what those loops are measured against.
-/

namespace TreeDrawing

/-- What a node was recorded as. -/
inductive Kind where
  /-- A node of the grammar's own structure. -/
  | ordinary
  /-- A node that was captured under a name. -/
  | capture
  deriving DecidableEq, Inhabited

/-- The name of a kind, in messages and in documents alike. -/
def Kind.name : Kind → String
  | .ordinary => "ordinary"
  | .capture => "capture"

/-- The kind with a given name. -/
def Kind.ofName? (name : String) : Option Kind :=
  if name = Kind.ordinary.name then some .ordinary
  else if name = Kind.capture.name then some .capture
  else none

/-- What a node carries besides its children. -/
structure Node where
  kind : Kind := .ordinary
  /-- The text of a rule or capture; absent is not the same as empty. -/
  value? : Option String := none
  /-- The text of a piece of input; absent is not the same as empty. -/
  token? : Option String := none
  deriving DecidableEq, Inhabited

/-- A node together with its children, in order. -/
inductive Tree where
  | node (root : Node) (children : List Tree)

/-- The trees below a node, or any other sequence of trees. -/
abbrev Forest := List Tree

namespace Tree

/-- What the topmost node carries. -/
def root : Tree → Node
  | node root _ => root

/-- The trees directly below the topmost node. -/
def children : Tree → Forest
  | node _ children => children

/-! ## Building trees -/

/-- A node on its own. -/
def single (root : Node) : Tree := node root []

instance : Inhabited Tree := ⟨single {}⟩

/-- A childless ordinary node with a value. -/
def interior (value : String) : Tree := single { value? := some value }

/-- A childless capture with a value. -/
def capture (value : String) : Tree := single { kind := .capture, value? := some value }

/-- A childless ordinary node with a token and no value. -/
def leaf (token : String) : Tree := single { token? := some token }

/-- Changes what the topmost node carries. -/
def mapRoot (f : Node → Node) : Tree → Tree
  | node root children => node (f root) children

/-- Replaces the children of the topmost node. -/
def withChildren (t : Tree) (children : Forest) : Tree := node t.root children

/-- Adds a child after those already there. -/
def addChild (t child : Tree) : Tree := t.withChildren (t.children ++ [child])

/-- Whether the topmost node has no children. -/
def isLeaf (t : Tree) : Bool := t.children.isEmpty

@[simp] theorem root_node (n : Node) (cs : Forest) : (node n cs).root = n := rfl

@[simp] theorem children_node (n : Node) (cs : Forest) : (node n cs).children = cs := rfl

end Tree

/-! ## Size and depth -/

mutual

/-- How many nodes a tree has. -/
def Tree.size : Tree → Nat
  | .node _ children => 1 + Forest.size children

/-- How many nodes the trees of a forest have together. -/
def Forest.size : Forest → Nat
  | [] => 0
  | t :: rest => t.size + Forest.size rest

end

mutual

/-- How many nodes lie on the longest way down. -/
def Tree.levels : Tree → Nat
  | .node _ children => 1 + Forest.levels children

/-- The levels of the deepest tree of a forest. -/
def Forest.levels : Forest → Nat
  | [] => 0
  | t :: rest => max t.levels (Forest.levels rest)

end

theorem Tree.size_pos (t : Tree) : 0 < t.size := by
  cases t
  rw [Tree.size]
  omega

theorem Forest.size_append (f g : Forest) :
    Forest.size (f ++ g) = Forest.size f + Forest.size g := by
  induction f with
  | nil => simp [Forest.size]
  | cons t f ih => simp [Forest.size, ih, Nat.add_assoc]

theorem Forest.size_reverse (f : Forest) : Forest.size f.reverse = Forest.size f := by
  induction f with
  | nil => rfl
  | cons t f ih =>
    rw [List.reverse_cons, Forest.size_append, ih]
    simp [Forest.size, Nat.add_comm]

/-! ## Equality -/

mutual

/-- Whether two trees carry the same at every node and have the same shape. -/
def Tree.same : Tree → Tree → Bool
  | .node a cs, .node b ds => a == b && Forest.same cs ds

/-- Whether two forests have the same trees, one by one. -/
def Forest.same : Forest → Forest → Bool
  | [], [] => true
  | c :: cs, d :: ds => c.same d && Forest.same cs ds
  | _, _ => false

end

mutual

theorem Tree.same_iff_eq : ∀ t u : Tree, t.same u = true ↔ t = u
  | .node a cs, .node b ds => by
    rw [Tree.same, Bool.and_eq_true, beq_iff_eq, Forest.same_iff_eq cs ds, Tree.node.injEq]

theorem Forest.same_iff_eq : ∀ f g : Forest, Forest.same f g = true ↔ f = g
  | [], [] => by simp [Forest.same]
  | [], _ :: _ => by simp [Forest.same]
  | _ :: _, [] => by simp [Forest.same]
  | c :: cs, d :: ds => by
    rw [Forest.same, Bool.and_eq_true, Tree.same_iff_eq c d, Forest.same_iff_eq cs ds,
      List.cons.injEq]

end

instance : DecidableEq Tree := fun t u ↦ decidable_of_iff _ (Tree.same_iff_eq t u)

end TreeDrawing
