import TreeDrawing.Text.Visible

/-!
# Quoted text in messages

A message that shows a piece of text puts it between double quotes. What could be mistaken for the
end of the text, or not be seen at all, is written with a backslash, so that the text can be told
from the message exactly.
-/

namespace TreeDrawing.Text

/-- One character, as it stands between the quotes: a few have an escape of their own, and a
character that does not show itself is given by its code point. -/
def quotedChar : Char → String
  | '"' => "\\\""
  | '\\' => "\\\\"
  | '\n' => "\\n"
  | '\r' => "\\r"
  | '\t' => "\\t"
  | '\x00' => "\\0"
  | c =>
    if showsItself c then c.toString
    else "\\u\x7b" ++ String.ofList (Nat.toDigits 16 c.toNat) ++ "\x7d"

/-- A piece of text between double quotes. -/
def quoted (s : String) : String :=
  s.toList.foldl (fun out c ↦ out ++ quotedChar c) "\"" ++ "\""

end TreeDrawing.Text
