import TreeDrawing.Decimal.Layout
import TreeDrawing.Text.Quoted

/-!
# What can be wrong with a document

Reading a document stops at the first fault. A fault has a cause and a place. The cause is a value
of its own type, and its wording is settled here once, in `Cause.message`.

## Places

While it reads, a reader knows only what is left of the text, so it marks a place by the text left
over there, plus a number of bytes beyond it: a fault is found *at* a place when what was read up
to it is wrong, and one byte *past* it when the next character is. Only when the whole text is at
hand is the mark turned into a line and a column, both counted in the bytes of its UTF-8 form.
-/

namespace TreeDrawing.Json

/-- A value of the wrong sort, as far as a message shows it. -/
inductive Found where
  | null
  | boolean (b : Bool)
  | integer (n : Int)
  | real (d : Decimal.Signed)
  | text (s : String)
  | sequence
  | map
  deriving DecidableEq

/-- How a message shows a value. -/
def Found.message : Found → String
  | null => "null"
  | boolean true => "boolean `true`"
  | boolean false => "boolean `false`"
  | integer n => "integer `" ++ toString n ++ "`"
  | real d => "floating point `" ++ Decimal.Layout.plain.write d ++ "`"
  | text s => "string " ++ Text.quoted s
  | sequence => "sequence"
  | map => "map"

/-- The two forms of brackets, each of which may enclose others. -/
inductive Bracket where
  | list
  | object
  deriving DecidableEq

/-- What a text can break off in. -/
inductive Part where
  | value
  | text
  | enclosed (b : Bracket)
  deriving DecidableEq

/-- The reasons for which a document is refused. -/
inductive Cause where
  /-- The text ends before a part of it does. -/
  | unfinished (part : Part)
  /-- The character that should come next is missing. -/
  | expectedColon
  | expectedSeparator (b : Bracket)
  | expectedValue
  /-- A word that begins like one of the three literals goes on differently. -/
  | unknownWord
  | keyNotText
  | trailingComma
  | trailingCharacters
  | invalidNumber
  | numberOutOfRange
  | controlCharacter
  | invalidEscape
  /-- One half of a surrogate pair stands alone. -/
  | loneSurrogate
  /-- The first half of a surrogate pair is not followed by another escape. -/
  | brokenPair
  | nestedTooDeeply
  /-- A value is there, but of another sort than wanted. -/
  | mismatch (found : Found) (wanted : String)
  /-- A name is not among those allowed. -/
  | unknownName (name : String) (allowed : String)
  | duplicateKey (key : String)
  deriving DecidableEq

/-- The wording of a cause. -/
def Cause.message : Cause → String
  | unfinished .value => "EOF while parsing a value"
  | unfinished .text => "EOF while parsing a string"
  | unfinished (.enclosed .list) => "EOF while parsing a list"
  | unfinished (.enclosed .object) => "EOF while parsing an object"
  | expectedColon => "expected `:`"
  | expectedSeparator .list => "expected `,` or `]`"
  | expectedSeparator .object => "expected `,` or `\x7d`"
  | expectedValue => "expected value"
  | unknownWord => "expected ident"
  | keyNotText => "key must be a string"
  | trailingComma => "trailing comma"
  | trailingCharacters => "trailing characters"
  | invalidNumber => "invalid number"
  | numberOutOfRange => "number out of range"
  | controlCharacter => "control character (\\u0000-\\u001F) found while parsing a string"
  | invalidEscape => "invalid escape"
  | loneSurrogate => "lone leading surrogate in hex escape"
  | brokenPair => "unexpected end of hex escape"
  | nestedTooDeeply => "recursion limit exceeded"
  | mismatch found wanted => "invalid type: " ++ found.message ++ ", expected " ++ wanted
  | unknownName name allowed => "unknown variant `" ++ name ++ "`, expected " ++ allowed
  | duplicateKey key => "duplicate field `" ++ key ++ "`"

/-! ## Faults -/

/-- A cause and its place: `beyond` bytes into what is left of the text. -/
structure Fault where
  cause : Cause
  rest : List Char
  beyond : Nat := 0
  deriving DecidableEq

/-- The fault of what has been read up to here. -/
def Fault.at (cause : Cause) (rest : List Char) : Fault := { cause, rest }

/-- The fault of the character that comes next, or of the end of the text. -/
def Fault.past (cause : Cause) (rest : List Char) : Fault :=
  { cause, rest, beyond := if rest.isEmpty then 0 else 1 }

/-- The text breaks off. -/
def Fault.ended (part : Part) : Fault := .at (.unfinished part) []

/-! ## Lines and columns -/

/-- How many bytes a text takes up in UTF-8. -/
def byteCount (s : List Char) : Nat := s.foldl (fun n c ↦ n + c.utf8Size) 0

/-- A line, counted from one, and the number of bytes before the place in that line. -/
structure Position where
  line : Nat
  column : Nat
  deriving DecidableEq

/-- Moves over the first `bytes` bytes of a text. -/
def Position.advance (p : Position) (bytes : Nat) : List Char → Position
  | [] => p
  | c :: rest =>
    if bytes < c.utf8Size then { p with column := p.column + bytes }
    else if c = '\n' then advance ⟨p.line + 1, 0⟩ (bytes - c.utf8Size) rest
    else advance { p with column := p.column + c.utf8Size } (bytes - c.utf8Size) rest

/-- The position that comes after the first `bytes` bytes of a text. -/
def Position.after (bytes : Nat) (text : List Char) : Position :=
  (⟨1, 0⟩ : Position).advance bytes text

/-- Why and where a document is refused. -/
structure Error where
  cause : Cause
  position : Position
  deriving DecidableEq

/-- A fault found in reading `text`. -/
def Fault.inText (f : Fault) (text : List Char) : Error where
  cause := f.cause
  position := .after (byteCount text - byteCount f.rest + f.beyond) text

/-- The wording of an error. -/
def Error.message (e : Error) : String :=
  e.cause.message ++ " at line " ++ toString e.position.line ++ " column "
    ++ toString e.position.column

end TreeDrawing.Json
