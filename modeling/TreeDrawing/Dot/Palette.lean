import TreeDrawing.Json.Record

/-!
# Palettes

The four colours of a drawing. Any text is accepted as the name of a colour and written into the
drawing as it stands.
-/

namespace TreeDrawing.Dot

open Json

/-- The colours of a drawing: of nodes that carry a value, and of those that do not. -/
structure Palette where
  interiorFill : String := "blue"
  interiorFont : String := "white"
  leafFill : String := "white"
  leafFont : String := "black"
  deriving DecidableEq, Inhabited

namespace Palette

/-- The fields of a palette in a document. -/
def fields : List (RecordField Palette) :=
  [⟨"interior_fill", Reader.text.map fun c p ↦ { p with interiorFill := c }⟩,
   ⟨"interior_font", Reader.text.map fun c p ↦ { p with interiorFont := c }⟩,
   ⟨"leaf_fill", Reader.text.map fun c p ↦ { p with leafFill := c }⟩,
   ⟨"leaf_font", Reader.text.map fun c p ↦ { p with leafFont := c }⟩]

/-- Reads a palette, with `room` for so many nested lists and records. -/
def reader (room : Nat) : Reader Palette :=
  .record "struct Palette" {} (if room = 0 then none else some fields)

/-- Reads a text that holds a palette. -/
def ofJson (text : String) : Except Json.Error Palette := (reader maxNesting).document text

/-- Writes a palette after `out`. -/
def write (p : Palette) (out : String) : String :=
  out.push '\x7b'
    |> writeEntry "interior_fill" p.interiorFill
    |>.push ','
    |> writeEntry "interior_font" p.interiorFont
    |>.push ','
    |> writeEntry "leaf_fill" p.leafFill
    |>.push ','
    |> writeEntry "leaf_font" p.leafFont
    |>.push '\x7d'

/-- The document of a palette. -/
def toJson (p : Palette) : String := p.write ""

end Palette

end TreeDrawing.Dot
