import TreeDrawing.Dot.Error
import TreeDrawing.Dot.Statement
import TreeDrawing.Tree.Walk

/-!
# Drawings

A drawing grows while a tree is walked. Entering a node gives it the next number, declares it, and
connects it to the node that was entered last and not left again; leaving closes that node. Nodes
may be entered and left by any other driver too, in any order, except that there must be an open
node to leave.

## Main definitions

* `Drawing.enter`, `Drawing.leave?`: the two steps, as functions on drawings.
* `Drawing.document`: the drawing so far, as a document.
* `Drawing.finish`: the same, but only if no node is open.
* `Drawing.visitor`: the two steps as a visitor, which reports what it does.
* `toDot`, `toDotWith`: the drawing of a tree.
-/

namespace TreeDrawing

open Log

namespace Dot

/-- A drawing in the making. -/
structure Drawing where
  config : Config
  /-- The numbers of the nodes that have been entered and not left, the innermost first. -/
  openIds : List Nat := []
  /-- How many nodes have been entered, which is also the next number. -/
  nodeCount : Nat := 0
  /-- The statements so far, the newest first. -/
  newest : List Statement := []
  deriving DecidableEq

namespace Drawing

/-- The statements so far, in order. -/
def statements (d : Drawing) : List Statement := d.newest.reverse

/-- How many nodes are open. -/
def depth (d : Drawing) : Nat := d.openIds.length

/-- Enters a node. -/
def enter (d : Drawing) (n : Node) : Drawing :=
  { d with
    openIds := d.nodeCount :: d.openIds
    nodeCount := d.nodeCount + 1
    newest := (d.config.introduce d.openIds.head? d.nodeCount n).reverse ++ d.newest }

/-- Leaves the innermost open node, and says which one that was. -/
def leave? (d : Drawing) : Option (Nat × Drawing) :=
  match d.openIds with
  | [] => none
  | id :: rest => some (id, { d with openIds := rest })

/-- The drawing so far, as a document. -/
def document (d : Drawing) : String := d.config.document d.statements

end Drawing

/-- The only thing that can go wrong while a drawing grows: a node is to be left, but none is
open. -/
inductive Unbalanced where
  | leave

/-- The wording of that failure. -/
def Unbalanced.message : Unbalanced → String
  | leave => "GraphvizVisitor::leave called with no entered node (unbalanced traversal)"

/-! ## Reports -/

/-- Reported when a drawing is begun. -/
def Config.created (c : Config) : Entry :=
  ⟨.debug, "Creating Graphviz visitor: graph=" ++ c.graphName ++ ", tool=" ++ c.toolName⟩

/-- Reported when a node is entered. -/
def entering (id : Nat) (n : Node) : Entry :=
  ⟨.trace, "Entering node " ++ toString id ++ ": kind=" ++ n.kind.name ++ ", class="
    ++ n.nodeClass.name⟩

/-- Reported when a node is left. -/
def leaving (id : Nat) : Entry := ⟨.trace, "Leaving node " ++ toString id⟩

/-- Reported when a document is made. -/
def rendering (nodes : Nat) : Entry :=
  ⟨.debug, "Rendering DOT document with " ++ toString nodes ++ " nodes"⟩

/-! ## Steps that report -/

namespace Drawing

/-- Begins a drawing, and reports it. -/
def create (c : Config) : Logged Drawing := { state := { config := c }, newest := [c.created] }

/-- Enters and leaves nodes of a drawing, and reports each step that succeeds. -/
def visitor : Visitor (Logging Unbalanced Drawing) where
  enter n := do
    log (entering (← get).state.nodeCount n)
    Logging.update (enter · n)
  leave := do
    match leave? (← get).state with
    | none => throw .leave
    | some (id, d) =>
      log (leaving id)
      Logging.update fun _ ↦ d

/-- Makes a document of the drawing so far, and reports it. -/
def render {ε : Type} : Logging ε Drawing String := do
  let d := (← get).state
  log (rendering d.nodeCount)
  return d.document

/-- Makes a document of the drawing if no node is open. -/
def finish : Logging Error Drawing String := do
  let d := (← get).state
  if d.depth = 0 then render else throw (.incomplete d.depth)

end Drawing

/-! ## Drawing a tree -/

/-- The document of a tree, with the given choices. -/
def toDotWith (t : Tree) (c : Config) : String :=
  (Logging.after (t.walk Drawing.visitor) { config := c }).state.document

/-- The document of a tree. -/
def toDot (t : Tree) : String := toDotWith t {}

end Dot

end TreeDrawing
