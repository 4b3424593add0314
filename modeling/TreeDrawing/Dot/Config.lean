import TreeDrawing.Dot.Palette

/-!
# Configurations

What can be chosen about a drawing besides the tree itself: the names in its frame, the label of a
node without any text, and the colours.
-/

namespace TreeDrawing.Dot

open Json

/-- The choices for a drawing. -/
structure Config where
  /-- The tool named in the opening comment. -/
  toolName : String := "Bullwinkle"
  /-- The name of the graph, which is not quoted. -/
  graphName : String := "G"
  /-- The label of a node that has neither a value nor a token. -/
  missingLabel : String := "null"
  palette : Palette := {}
  deriving DecidableEq, Inhabited

namespace Config

/-- The fields of a configuration in a document, with `room` for so many nested lists and
records. -/
def fields (room : Nat) : List (RecordField Config) :=
  [⟨"tool_name", Reader.text.map fun t c ↦ { c with toolName := t }⟩,
   ⟨"graph_name", Reader.text.map fun t c ↦ { c with graphName := t }⟩,
   ⟨"missing_label", Reader.text.map fun t c ↦ { c with missingLabel := t }⟩,
   ⟨"palette", (Palette.reader room).map fun p c ↦ { c with palette := p }⟩]

/-- Reads a configuration, with `room` for so many nested lists and records. -/
def reader : Nat → Reader Config
  | 0 => .record "struct GraphvizConfig" {} none
  | room + 1 => .record "struct GraphvizConfig" {} (some (fields room))

/-- Writes a configuration after `out`. -/
def write (c : Config) (out : String) : String :=
  out.push '\x7b'
    |> writeEntry "tool_name" c.toolName
    |>.push ','
    |> writeEntry "graph_name" c.graphName
    |>.push ','
    |> writeEntry "missing_label" c.missingLabel
    |>.push ','
    |> writeKey "palette"
    |> c.palette.write
    |>.push '\x7d'

/-- The document of a configuration. -/
def toJson (c : Config) : String := c.write ""

end Config

end TreeDrawing.Dot
