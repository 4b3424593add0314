import TreeDrawing.Dot.Config

/-!
# Errors of drawing

A drawing is refused if its configuration cannot be read, or if it is asked for while the walk
over the tree has not come back to the top.
-/

namespace TreeDrawing.Dot

/-- Why there is no drawing. -/
inductive Error where
  /-- Nodes have been entered and not left again. -/
  | incomplete (openNodes : Nat)
  /-- The configuration is at fault: what was attempted, and why it failed. -/
  | config (attempt : String) (reason : Json.Error)
  deriving DecidableEq

/-- The wording of an error, which for a configuration does not repeat the reason. -/
def Error.message : Error → String
  | incomplete n =>
    "Incomplete traversal: " ++ toString n ++ " node(s) entered but never left"
  | config attempt _ => "Configuration error: " ++ attempt

/-- Reads a text that holds a configuration. -/
def Config.ofJson (text : String) : Except Error Config :=
  match (Config.reader Json.maxNesting).document text with
  | .ok c => .ok c
  | .error e => .error (.config "Failed to parse Graphviz config" e)

end TreeDrawing.Dot
