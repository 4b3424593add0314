import TreeDrawing.Dot.Config
import TreeDrawing.Dot.Style

/-!
# Statements and documents

The body of a drawing is a sequence of statements, each of which declares a node or an edge between
two nodes. Nodes are numbered.
-/

namespace TreeDrawing.Dot

/-- One line of the body of a drawing. -/
inductive Statement where
  /-- An edge from a node to one of its children. -/
  | edge (parent child : Nat)
  /-- A node with its label, the label as it is written. -/
  | node (id : Nat) (style : Style) (label : String)
  deriving DecidableEq

/-- A statement as it is written. -/
def Statement.text : Statement → String
  | edge parent child => toString parent ++ " -> " ++ toString child ++ ";\n"
  | node id style label =>
    "  " ++ toString id ++ " [fontcolor=\"" ++ style.fontColor ++ "\",style=\"filled\",fillcolor=\""
      ++ style.fillColor ++ "\",shape=\"" ++ style.shape ++ "\",label=\"" ++ label ++ "\"];\n"

/-- The statement that declares a node. -/
def Config.declare (c : Config) (id : Nat) (n : Node) : Statement :=
  .node id (c.palette.style n.nodeClass) (escapeLabel (n.label?.getD c.missingLabel))

/-- The statements for entering a node: an edge from the node it is entered from, if there is one,
and its declaration. -/
def Config.introduce (c : Config) (parent? : Option Nat) (id : Nat) (n : Node) : List Statement :=
  match parent? with
  | none => [c.declare id n]
  | some parent => [.edge parent id, c.declare id n]

/-- A whole document: a comment that names the tool, and a graph with the given statements. -/
def Config.document (c : Config) (statements : List Statement) : String :=
  statements.foldl (fun out s ↦ out ++ s.text)
    ("# File auto-generated by " ++ c.toolName ++ "\n\ndigraph " ++ c.graphName ++ " \x7b\n")
  ++ "\x7d"

end TreeDrawing.Dot
