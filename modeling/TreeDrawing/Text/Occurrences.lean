/-!
# Occurrences of a text in another

Occurrences are counted from left to right without overlap: where one ends, the search starts
afresh. Reading character by character it is enough to remember the characters since the last
occurrence, and of these no more than the searched text is long.
-/

namespace TreeDrawing.Text

/-- What a search remembers between two characters. -/
structure Search where
  /-- The characters read since the last occurrence, newest first and cut to the length of the
  searched text. -/
  recent : List Char := []
  /-- How many occurrences have been found. -/
  found : Nat := 0

/-- Reads one more character. The searched text is given from its last character to its first. -/
def Search.next (reversed : List Char) (s : Search) (c : Char) : Search :=
  let recent := (c :: s.recent).take reversed.length
  if recent = reversed then { found := s.found + 1 } else { s with recent }

/-- How often `pattern` occurs in `text`, counted from left to right without overlap. -/
def occurrences (pattern text : String) : Nat :=
  (text.foldl (Search.next pattern.toList.reverse) {}).found

end TreeDrawing.Text
