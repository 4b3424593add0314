import TreeDrawing.Tree.Json

/-!
# Building trees step by step

Trees can be built by a list of instructions, which work on a stack. Each instruction takes what it
needs off the top of the stack and puts its result there.

## Drafts

Adding a child to a tree means adding it at the end of a list, which takes as long as the list is.
So the stack does not hold trees but *drafts*, whose children are listed newest first and turned
round only when the tree is wanted.
-/

namespace TreeDrawing

/-- A tree to which children can still be added. -/
structure Draft where
  root : Node
  /-- The children so far, the newest first. -/
  newest : Forest := []

namespace Draft

/-- The tree as it stands. -/
def tree (d : Draft) : Tree := .node d.root d.newest.reverse

/-- A tree to be continued. -/
def ofTree (t : Tree) : Draft := ⟨t.root, t.children.reverse⟩

/-- Adds a child behind the others. -/
def add (d : Draft) (child : Tree) : Draft := { d with newest := child :: d.newest }

/-- Adds children behind the others, in order. -/
def addAll (d : Draft) (children : Forest) : Draft := children.foldl add d

/-- Changes what the topmost node carries. -/
def mapRoot (f : Node → Node) (d : Draft) : Draft := { d with root := f d.root }

@[simp] theorem tree_ofTree (t : Tree) : (ofTree t).tree = t := by
  cases t
  simp [ofTree, tree]

@[simp] theorem tree_add (d : Draft) (child : Tree) :
    (d.add child).tree = d.tree.addChild child := by
  simp [add, tree, Tree.addChild, Tree.withChildren]

end Draft

/-- One step of building trees. -/
inductive Instruction where
  /-- Puts a tree on the stack. -/
  | push (t : Tree)
  /-- Reads a tree and puts it on the stack. -/
  | read (text : String)
  /-- Takes a child and then its parent, and puts the parent back with the child added. -/
  | adopt
  /-- Takes so many children and then their parent, and puts the parent back with the children
  added in the order in which they came onto the stack. -/
  | adoptAll (count : Nat)
  /-- Changes what the topmost node of the uppermost tree carries. -/
  | setKind (k : Kind)
  | setValue (value? : Option String)
  | setToken (token? : Option String)
  /-- Puts a copy of the uppermost tree on the stack. -/
  | copy
  /-- Exchanges the two uppermost trees. -/
  | swap
  /-- Takes a tree off the stack. -/
  | drop
  /-- Runs instructions several times. -/
  | repeat (times : Nat) (body : List Instruction)

namespace Workbench

/-- Why an instruction cannot be carried out. -/
inductive Fault where
  /-- The stack is not high enough. -/
  | missingTree
  /-- A text that is to be read as a tree does not hold one. -/
  | unreadable (u : Unreadable)

/-- Carries out `f` several times. -/
@[specialize]
def times {σ ε : Type} (f : σ → Except ε σ) : Nat → σ → Except ε σ
  | 0, s => .ok s
  | n + 1, s =>
    match f s with
    | .error e => .error e
    | .ok s => times f n s

mutual

/-- Carries out one instruction on a stack of drafts. -/
def run (i : Instruction) (stack : List Draft) : Except Fault (List Draft) :=
  match i, stack with
  | .push t, stack => .ok (.ofTree t :: stack)
  | .read text, stack =>
    match Tree.ofJson text with
    | .ok t => .ok (.ofTree t :: stack)
    | .error u => .error (.unreadable u)
  | .adopt, child :: parent :: stack => .ok (parent.add child.tree :: stack)
  | .adoptAll count, stack =>
    match stack.drop count with
    | [] => .error .missingTree
    | parent :: rest =>
      .ok (parent.addAll ((stack.take count).reverse.map Draft.tree) :: rest)
  | .setKind k, d :: stack => .ok (d.mapRoot ({ · with kind := k }) :: stack)
  | .setValue v, d :: stack => .ok (d.mapRoot ({ · with value? := v }) :: stack)
  | .setToken v, d :: stack => .ok (d.mapRoot ({ · with token? := v }) :: stack)
  | .copy, d :: stack => .ok (d :: d :: stack)
  | .swap, d :: e :: stack => .ok (e :: d :: stack)
  | .drop, _ :: stack => .ok stack
  | .repeat n body, stack => times (runAll body) n stack
  | _, _ => .error .missingTree

/-- Carries out instructions in order, up to the first that fails. -/
def runAll (is : List Instruction) (stack : List Draft) : Except Fault (List Draft) :=
  match is with
  | [] => .ok stack
  | i :: is =>
    match run i stack with
    | .error e => .error e
    | .ok stack => runAll is stack

end

/-- The tree that instructions build on an empty stack: the uppermost one at the end. -/
def build (is : List Instruction) : Except Fault Tree :=
  match runAll is [] with
  | .error e => .error e
  | .ok [] => .error .missingTree
  | .ok (d :: _) => .ok d.tree

end Workbench

end TreeDrawing
