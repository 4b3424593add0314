import Mathlib.Data.List.ReduceOption
import TreeDrawing.Json.Skip

/-!
# What a document looks like

The readers take a text apart from the front, one character after another. This module says which
texts there are to be read, and what they stand for, without reading any: it is the grammar that
the readers are measured against.

A *language* relates pieces of text to what they stand for. A piece begins with its first proper
character, and the blanks that may stand before it are mentioned where the piece is used. Signs are
the exception, since a sign alone is of no interest: the blanks before it are part of it.

## Main definitions

* `TextLiteral`: texts between quotes, whose escapes name characters.
* `ValueText`: values that only have to be well formed, of any depth.
* `Enclosed`: items of a given language between brackets, separated by commas.
* `RecordText`: records, given by name or by position.
-/

namespace TreeDrawing.Json

/-- A relation between pieces of text and what they stand for. -/
abbrev Lang (α : Type) := List Char → α → Prop

/-! ## Blanks and signs -/

/-- Text that may stand between any two pieces. -/
def Blank (w : List Char) : Prop := ∀ c ∈ w, c ∈ [' ', '\n', '\t', '\r']

/-- A single character, perhaps behind blanks. -/
def Sign (c : Char) (w : List Char) : Prop := ∃ b, Blank b ∧ w = b ++ [c]

/-- A whole document: one piece, and blanks around it. -/
def DocumentText {α : Type} (L : Lang α) : Lang α :=
  fun s a ↦ ∃ b w b', s = b ++ (w ++ b') ∧ Blank b ∧ L w a ∧ Blank b'

/-- What stands before an entry: nothing before the first, a comma before any other. -/
def Separator : Bool → List Char → Prop
  | true, w => w = []
  | false, w => Sign ',' w

/-! ## Texts -/

/-- A hexadecimal digit in either case. -/
def HexDigit (c : Char) (n : Nat) : Prop := n < 16 ∧ (c = n.digitChar ∨ c = n.digitChar.toUpper)

/-- Four hexadecimal digits. -/
inductive UnitText : Lang Nat
  | digits {a b c d : Char} {x y z t : Nat} (ha : HexDigit a x) (hb : HexDigit b y)
      (hc : HexDigit c z) (hd : HexDigit d t) :
    UnitText [a, b, c, d] (0x1000 * x + 0x100 * y + 0x10 * z + t)

/-- The letters that stand for a character behind a backslash. -/
def letters : List (Char × Char) :=
  [('"', '"'), ('\\', '\\'), ('/', '/'), ('b', '\x08'), ('f', '\x0C'), ('n', '\n'), ('r', '\r'),
    ('t', '\t')]

/-- One character of a text. -/
inductive CharText : Lang Char
  /-- Most characters stand for themselves. -/
  | plain {c : Char} (hq : c ≠ '"') (hb : c ≠ '\\') (hc : 0x20 ≤ c.toNat) : CharText [c] c
  | letter {l c : Char} (h : (l, c) ∈ letters) : CharText ['\\', l] c
  /-- A number that is not half of a surrogate pair. -/
  | number {w : List Char} {u : Nat} (hw : UnitText w u) (hu : u < 0xD800 ∨ 0xDFFF < u) :
    CharText ('\\' :: 'u' :: w) (Char.ofNat u)
  /-- A surrogate pair. -/
  | pair {w v : List Char} {i j : Nat} (hw : UnitText w (0xD800 + i)) (hi : i < 0x400)
      (hv : UnitText v (0xDC00 + j)) (hj : j < 0x400) :
    CharText ('\\' :: 'u' :: (w ++ '\\' :: 'u' :: v)) (Char.ofNat (0x10000 + i * 0x400 + j))

/-- What follows the opening quote of a text. -/
inductive TextTail : Lang (List Char)
  | close : TextTail ['"'] []
  | char {w v : List Char} {c : Char} {cs : List Char} (hw : CharText w c) (hv : TextTail v cs) :
    TextTail (w ++ v) (c :: cs)

/-- A text between quotes. -/
def TextLiteral : Lang String := fun w t ↦ ∃ v, w = '"' :: v ∧ TextTail v t.toList

/-- A text, or the word that stands for the absence of one. -/
inductive OptionalText : Lang (Option String)
  | null : OptionalText ['n', 'u', 'l', 'l'] none
  | text {w : List Char} {t : String} (hw : TextLiteral w t) : OptionalText w (some t)

/-- What follows the opening quote of a text that is not read for its characters, so that any four
digits are as good as others. -/
inductive LooseTail : List Char → Prop
  | close : LooseTail ['"']
  | char {w v : List Char} {c : Char} (hw : CharText w c) (hv : LooseTail v) : LooseTail (w ++ v)
  | number {w v : List Char} {u : Nat} (hw : UnitText w u) (hv : LooseTail v) :
    LooseTail ('\\' :: 'u' :: (w ++ v))

/-! ## Numbers -/

/-- One decimal digit or more. -/
def Digits (w : List Char) : Prop := w ≠ [] ∧ ∀ c ∈ w, c.isDigit = true

/-- The digits before the point, which start with a zero only if they are that zero. -/
def WholePart (w : List Char) : Prop := w = ['0'] ∨ Digits w ∧ w.head? ≠ some '0'

/-- A point and the digits behind it, or nothing. -/
def FractionPart (w : List Char) : Prop := w = [] ∨ ∃ d, Digits d ∧ w = '.' :: d

/-- An exponent, or nothing. -/
def ExponentPart (w : List Char) : Prop :=
  w = [] ∨ ∃ e sign d, (e = 'e' ∨ e = 'E') ∧ (sign = [] ∨ sign = ['+'] ∨ sign = ['-']) ∧
    Digits d ∧ w = e :: (sign ++ d)

/-- A number. -/
def NumberText (w : List Char) : Prop :=
  ∃ minus whole fraction exponent, (minus = [] ∨ minus = ['-']) ∧ WholePart whole ∧
    FractionPart fraction ∧ ExponentPart exponent ∧
    w = minus ++ (whole ++ (fraction ++ exponent))

/-! ## Values that are passed over -/

/-- A value that encloses no others. -/
inductive ScalarText : List Char → Prop
  | null : ScalarText ['n', 'u', 'l', 'l']
  | true : ScalarText ['t', 'r', 'u', 'e']
  | false : ScalarText ['f', 'a', 'l', 's', 'e']
  | text {w : List Char} (hw : LooseTail w) : ScalarText ('"' :: w)
  | number {w : List Char} (hw : NumberText w) : ScalarText w

/-- The character that opens a bracket. -/
def Bracket.opening : Bracket → Char
  | list => '['
  | object => '\x7b'

/-- What stands before a value inside brackets: a key in an object, nothing in a list. -/
def LooseKey : Bracket → List Char → Prop
  | .list, w => w = []
  | .object, w => ∃ g k c, Blank g ∧ LooseTail k ∧ Sign ':' c ∧ w = g ++ '"' :: (k ++ c)

mutual

/-- A value of any sort and any depth. -/
inductive ValueText : List Char → Prop
  | scalar {w : List Char} (hw : ScalarText w) : ValueText w
  | enclosed {b : Bracket} {w : List Char} (hw : ValueEntries b true w) :
    ValueText (b.opening :: w)

/-- What follows inside brackets, before the first entry or behind another. -/
inductive ValueEntries : Bracket → Bool → List Char → Prop
  | close {b : Bracket} {first : Bool} {w : List Char} (hw : Sign b.close w) :
    ValueEntries b first w
  | entry {b : Bracket} {first : Bool} {c k g w v : List Char} (hc : Separator first c)
      (hk : LooseKey b k) (hg : Blank g) (hw : ValueText w) (hv : ValueEntries b false v) :
    ValueEntries b first (c ++ (k ++ (g ++ (w ++ v))))

end

/-! ## Lists and records -/

section Lists

variable {α : Type}

/-- What follows inside brackets, before the first item or behind another. -/
inductive Entries (close : Char) (item : Lang α) : Bool → Lang (List α)
  | close {first : Bool} {w : List Char} (hw : Sign close w) : Entries close item first w []
  | entry {first : Bool} {c g w v : List Char} {a : α} {as : List α} (hc : Separator first c)
      (hg : Blank g) (hw : item w a) (hv : Entries close item false v as) :
    Entries close item first (c ++ (g ++ (w ++ v))) (a :: as)

/-- Items between two brackets. -/
def Enclosed (opening closing : Char) (item : Lang α) : Lang (List α) :=
  fun w as ↦ ∃ v, w = opening :: v ∧ Entries closing item true v as

end Lists

section Records

variable {ι σ : Type}

/-- An entry of an object: something said under a key that is known, or any value under one that
is not, which says nothing. -/
inductive EntryText (keys : List String) (key : ι → String) (item : Lang ι) :
    Lang (Option ι)
  | known {w c g v : List Char} {a : ι} (hw : TextLiteral w (key a)) (hc : Sign ':' c)
      (hg : Blank g) (hv : item v a) : EntryText keys key item (w ++ (c ++ (g ++ v))) (some a)
  | unknown {w c g v : List Char} {k : String} (hw : TextLiteral w k) (hk : k ∉ keys)
      (hc : Sign ':' c) (hg : Blank g) (hv : ValueText v) :
    EntryText keys key item (w ++ (c ++ (g ++ v))) none

/-- A record: what is said in it, under keys that are each used at most once, or in the order of
the keys, from the first on. -/
inductive RecordText (keys : List String) (key : ι → String) (item : Lang ι) :
    Lang (List ι)
  | named {w : List Char} {es : List (Option ι)}
      (hw : Enclosed '\x7b' '\x7d' (EntryText keys key item) w es)
      (hes : (es.reduceOption.map key).Nodup) : RecordText keys key item w es.reduceOption
  | listed {w : List Char} {as : List ι} (hw : Enclosed '[' ']' item w as)
      (has : as.map key <+: keys) : RecordText keys key item w as

end Records

end TreeDrawing.Json
