import TreeDrawing.Json.Record
import TreeDrawing.Tree.Basic

/-!
# Trees as documents

A tree is written as an object with the keys `kind`, `value`, `token` and `children`, of which the
last three are left out when there is nothing to say. It is read back from any record of these
four fields, so also from one that leaves out the kind, or gives the fields as a list.

## Depth

Reading stops at a fixed number of nested lists and records. An inner level of a tree takes two of
them, its own record and the list of its children, and the last level takes one. Writing has no
such bound: a tree that is too deep to be read back can still be written.
-/

namespace TreeDrawing

open Json

/-! ## Reading -/

/-- Reads the name of a kind behind its opening quote. -/
def Kind.readName (s : List Char) : Except Fault (Kind × List Char) := do
  let (name, rest) ← readText "" s
  match Kind.ofName? name with
  | some kind => .ok (kind, rest)
  | none => .error (.at (.unknownName name "`ordinary` or `capture`") rest)

/-- Reads an object behind its opening bracket that has the name of a kind as its only key, and
nothing as its value. -/
def Kind.readTagged (s : List Char) : Except Fault (Kind × List Char) :=
  match skipBlanks s with
  | [] => .error (.ended (.enclosed .object))
  | '"' :: rest => do
    let (kind, rest) ← readName rest
    let rest ← colon rest
    match skipBlanks rest with
    | 'n' :: rest =>
      let rest ← spell ['u', 'l', 'l'] rest
      match skipBlanks rest with
      | [] => .error (.ended (.enclosed .object))
      | '\x7d' :: rest => .ok (kind, rest)
      | rest => .error (.at .expectedValue rest)
    | rest => .error (unwanted "unit" rest)
  | '\x7d' :: rest => .error (.past .expectedValue ('\x7d' :: rest))
  | rest => .error (.past .keyNotText rest)

private theorem Kind.readName_length_lt {s rest : List Char} {k : Kind}
    (h : readName s = .ok (k, rest)) : rest.length < s.length := by
  unfold readName at h
  obtain ⟨⟨name, s₁⟩, h₁, h⟩ := bind_eq_ok_iff.1 h
  have := readText_length_lt h₁
  dsimp only at h
  split at h <;> simp_all

private theorem Kind.readTagged_length_lt {s rest : List Char} {k : Kind}
    (h : readTagged s = .ok (k, rest)) : rest.length < s.length := by
  unfold readTagged at h
  split at h
  · simp at h
  · next heq =>
    obtain ⟨⟨kind, s₁⟩, h₁, h⟩ := bind_eq_ok_iff.1 h
    obtain ⟨s₂, h₂, h⟩ := bind_eq_ok_iff.1 h
    have := length_lt_of_skipBlanks heq
    have := readName_length_lt h₁
    have := colon_length_lt h₂
    split at h
    · next heq₂ =>
      obtain ⟨s₃, h₃, h⟩ := bind_eq_ok_iff.1 h
      have := length_lt_of_skipBlanks heq₂
      have := spell_length_le h₃
      split at h
      · simp at h
      · next heq₃ =>
        have := length_lt_of_skipBlanks heq₃
        simp only [Except.ok.injEq, Prod.mk.injEq] at h
        rw [← h.2]
        omega
      · simp at h
    · simp at h
  · simp at h
  · simp at h

/-- Reads a kind, given by its name alone or as an object, which takes one level of `room`. -/
def Kind.reader (room : Nat) : Reader Kind where
  read s :=
    match skipBlanks s with
    | [] => .error (.ended .value)
    | '"' :: rest => readName rest
    | '\x7b' :: rest =>
      if room = 0 then .error (.past .nestedTooDeeply ('\x7b' :: rest)) else readTagged rest
    | rest => .error (.past .expectedValue rest)
  shortens h := by
    split at h
    · simp at h
    · next heq => exact Nat.lt_trans (readName_length_lt h) (length_lt_of_skipBlanks heq)
    · next heq =>
      split at h
      · simp at h
      · exact Nat.lt_trans (readTagged_length_lt h) (length_lt_of_skipBlanks heq)
    · simp at h

/-- The fields of a tree, given the readers of its kind and of its children. -/
def Tree.fields (kind : Reader Kind) (children : Reader Forest) : List (RecordField Tree) :=
  [⟨"kind", kind.map fun k ↦ mapRoot fun n ↦ { n with kind := k }⟩,
   ⟨"value", Reader.optionalText.map fun v ↦ mapRoot fun n ↦ { n with value? := v }⟩,
   ⟨"token", Reader.optionalText.map fun v ↦ mapRoot fun n ↦ { n with token? := v }⟩,
   ⟨"children", children.map fun cs t ↦ t.withChildren cs⟩]

mutual

/-- Reads a tree, with `room` for so many nested lists and records. -/
def Tree.reader : Nat → Reader Tree
  | 0 => .record "struct TreeNode" default none
  | room + 1 =>
    .record "struct TreeNode" default (some (Tree.fields (Kind.reader room) (Forest.reader room)))

/-- Reads a list of trees, with `room` for so many nested lists and records. -/
def Forest.reader : Nat → Reader Forest
  | 0 => .list none
  | room + 1 => .list (some (Tree.reader room))

end

/-- Reads a text that holds a kind. -/
def Kind.ofJson (text : String) : Except Json.Error Kind := (Kind.reader maxNesting).document text

/-- A text does not hold a tree. -/
structure Unreadable where
  /-- What is wrong with the text, and where. -/
  reason : Json.Error
  deriving DecidableEq

/-- The wording, which repeats the reason. -/
def Unreadable.message (u : Unreadable) : String := "Tree JSON error: " ++ u.reason.message

/-- Reads a text that holds a tree. -/
def Tree.ofJson (text : String) : Except Unreadable Tree :=
  match (Tree.reader maxNesting).document text with
  | .ok t => .ok t
  | .error reason => .error ⟨reason⟩

/-! ## Writing -/

/-- Writes a further entry of an object after `out`, if its text is there. -/
def writeFurther (key : String) (text? : Option String) (out : String) : String :=
  match text? with
  | none => out
  | some text => writeEntry key text (out.push ',')

/-- Writes what a node carries after `out`, as the first entries of an object. -/
def Node.write (n : Node) (out : String) : String :=
  writeEntry "kind" n.kind.name out
    |> writeFurther "value" n.value?
    |> writeFurther "token" n.token?

mutual

/-- Writes a tree after `out`. -/
def Tree.write : Tree → String → String
  | .node n [], out => (n.write (out.push '\x7b')).push '\x7d'
  | .node n (c :: cs), out =>
    n.write (out.push '\x7b')
      |>.push ','
      |> writeKey "children"
      |>.push '['
      |> c.write
      |> Forest.writeRest cs
      |>.push ']'
      |>.push '\x7d'

/-- Writes trees after `out`, each behind a comma. -/
def Forest.writeRest : Forest → String → String
  | [], out => out
  | t :: ts, out => Forest.writeRest ts (t.write (out.push ','))

end

/-- The document of a kind. -/
def Kind.toJson (k : Kind) : String := writeText k.name ""

/-- The document of a tree. -/
def Tree.toJson (t : Tree) : String := t.write ""

end TreeDrawing
