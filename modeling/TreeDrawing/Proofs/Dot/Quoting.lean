import Mathlib.Algebra.Ring.Parity
import Mathlib.Data.List.DropRight
import TreeDrawing.Proofs.Dot.Decoding

/-!
# Quoted strings in a drawing

The attributes of a node are written between double quotes, and whoever reads a drawing finds their
ends by the rule of the DOT language: the first double quote ends a string, except that a backslash
takes the character behind it along. The drawing follows only half of that rule, since it rewrites
the double quotes of a label but leaves its backslashes alone. This module says exactly when a
drawing is understood as it was meant.

## The argument

A text made of pieces that are quoted and pieces that are not, none of which contains a double
quote, is scanned piece by piece: `Scan.read_pieces`. The scan can leave this track only where a
quoted piece ends in an odd number of backslashes, which take the closing quote along. From then on
the scan is *tainted*: some string, perhaps not yet closed, contains a double quote. Nothing can
undo that, and none of the strings that were meant contains one.
-/

namespace TreeDrawing

namespace Dot

/-! ## Scanning -/

/-- Where a scan stands. -/
inductive Scan.Place where
  | outside
  /-- Inside a string, of which so much has been read. -/
  | inside (read : List Char)
  /-- The same, but behind a backslash that takes the next character along. -/
  | escaped (read : List Char)
  deriving DecidableEq

/-- What a scan for quoted strings has found: the strings that are closed, as they are written, and
where it stands. -/
structure Scan where
  strings : List String := []
  place : Scan.Place := .outside
  deriving DecidableEq

/-- Reads one more character. -/
def Scan.next (s : Scan) (c : Char) : Scan :=
  match s.place with
  | .outside => if c = '"' then { s with place := .inside [] } else s
  | .inside w =>
    if c = '"' then { strings := s.strings ++ [.ofList w], place := .outside }
    else if c = '\\' then { s with place := .escaped (w ++ [c]) }
    else { s with place := .inside (w ++ [c]) }
  | .escaped w => { s with place := .inside (w ++ [c]) }

/-- Reads several characters. -/
def Scan.read (s : Scan) (cs : List Char) : Scan := cs.foldl next s

/-- Scans a text. -/
def scan (text : String) : Scan := Scan.read {} text.toList

/-- A quote behind one backslash is part of the string, and behind two it ends the string. -/
example : scan "a \"b\\\"c\" d \"e\\\\\" f" = { strings := ["b\\\"c", "e\\\\"] } := by
  decide +kernel

/-- How many backslashes a text ends in. -/
def endBackslashes (text : String) : Nat := (text.toList.rtakeWhile (· = '\\')).length

theorem endBackslashes_push (text : String) (c : Char) :
    endBackslashes (text.push c) = if c = '\\' then endBackslashes text + 1 else 0 := by
  rw [endBackslashes, String.toList_push, List.rtakeWhile_concat]
  by_cases hc : c = '\\'
  · simp [hc, endBackslashes]
  · simp [hc]

theorem endBackslashes_eq_zero {text : String} (h : '\\' ∉ text.toList) :
    endBackslashes text = 0 := by
  rw [endBackslashes, List.length_eq_zero_iff, List.rtakeWhile_eq_nil_iff]
  intro hne hlast
  have hmem := List.getLast_mem hne
  rw [of_decide_eq_true hlast] at hmem
  exact h hmem

namespace Scan

theorem read_append (s : Scan) (v w : List Char) : s.read (v ++ w) = (s.read v).read w :=
  List.foldl_append

/-- Outside strings everything but a double quote is passed over. -/
theorem read_outside {w : List Char} (hw : '"' ∉ w) (ss : List String) :
    read ⟨ss, .outside⟩ w = ⟨ss, .outside⟩ := by
  induction w with
  | nil => rfl
  | cons c w ih =>
    rw [List.mem_cons, not_or] at hw
    have hc : next ⟨ss, .outside⟩ c = ⟨ss, .outside⟩ := if_neg (Ne.symm hw.1)
    rw [read, List.foldl_cons, hc, ← read, ih hw.2]

/-- Inside a string, characters other than double quotes are added to it, and what matters at their
end is whether the backslashes there have all found their partner. -/
theorem read_inside {text : String} (hw : '"' ∉ text.toList) (ss : List String) :
    read ⟨ss, .inside []⟩ text.toList =
      ⟨ss, if Odd (endBackslashes text) then .escaped text.toList else .inside text.toList⟩ := by
  rw [← String.ofList_toList (s := text)]
  generalize text.toList = w at hw ⊢
  induction w using List.reverseRecOn with
  | nil => rfl
  | append_singleton w c ih =>
    rw [List.mem_append, List.mem_singleton, not_or] at hw
    have hpush : String.ofList (w ++ [c]) = (String.ofList w).push c := by simp
    rw [hpush, endBackslashes_push, String.toList_push, read_append, ih hw.1]
    by_cases hodd : Odd (endBackslashes (String.ofList w)) <;> by_cases hc : c = '\\'
    all_goals simp [read, next, hodd, hc, Nat.odd_add_one, Ne.symm hw.2]

/-- A quoted text is a string, unless it ends in an odd number of backslashes. Then its closing
quote becomes part of the string. -/
theorem read_quoted {text : String} (hw : '"' ∉ text.toList) (ss : List String) :
    read ⟨ss, .outside⟩ ('"' :: (text.toList ++ ['"'])) =
      if Odd (endBackslashes text) then ⟨ss, .inside (text.toList ++ ['"'])⟩
      else ⟨ss ++ [text], .outside⟩ := by
  have hopen : next ⟨ss, .outside⟩ '"' = ⟨ss, .inside []⟩ := rfl
  rw [read, List.foldl_cons, hopen, ← read, read_append, read_inside hw]
  by_cases hodd : Odd (endBackslashes text)
  · simp [read, next, hodd]
  · simp [read, next, hodd]

/-! ## Tainted scans -/

/-- What has been read of the string that is not closed yet. -/
def Place.opened : Place → List Char
  | .outside => []
  | .inside w => w
  | .escaped w => w

/-- Whether some string contains a double quote. -/
def Tainted (s : Scan) : Prop := (∃ t ∈ s.strings, '"' ∈ t.toList) ∨ '"' ∈ s.place.opened

theorem Tainted.next {s : Scan} (h : s.Tainted) (c : Char) : (s.next c).Tainted := by
  rcases s with ⟨ss, place⟩
  rcases h with ⟨t, ht, hq⟩ | hq
  · refine .inl ⟨t, ?_, hq⟩
    unfold Scan.next
    split <;> grind
  · cases place with
    | outside => exact absurd hq List.not_mem_nil
    | inside w =>
      -- The string stays open, or it is closed with the quote in it.
      by_cases hc : c = '"'
      · refine .inl ⟨.ofList w, ?_, ?_⟩
        · simp [Scan.next, hc]
        · rwa [String.toList_ofList]
      · refine .inr ?_
        have hw : (Scan.next ⟨ss, .inside w⟩ c).place.opened = w ++ [c] := by
          simp only [Scan.next, if_neg hc]
          split <;> rfl
        rw [hw]
        exact List.mem_append_left _ hq
    | escaped w => exact .inr (List.mem_append_left _ hq)

theorem Tainted.read {s : Scan} (h : s.Tainted) (cs : List Char) : (s.read cs).Tainted := by
  induction cs generalizing s with
  | nil => exact h
  | cons c cs ih => exact ih (h.next c)

/-! ## Pieces -/

/-- A part of a text that is to be scanned. -/
inductive Piece where
  | plain (text : String)
  | quoted (text : String)

namespace Piece

/-- What stands in a piece, without the quotes around it. -/
def content : Piece → String
  | plain text => text
  | quoted text => text

/-- A piece as it is written. -/
def written : Piece → List Char
  | plain text => text.toList
  | quoted text => '"' :: (text.toList ++ ['"'])

/-- The string that a piece is meant to be, if it is meant to be one. -/
def string? : Piece → Option String
  | plain _ => none
  | quoted text => some text

end Piece

/-- Scanning pieces, of which none contains a double quote, finds the strings that were meant, if
each of them ends in an even number of backslashes. Otherwise the scan is tainted. -/
theorem read_pieces {ps : List Piece} (hps : ∀ p ∈ ps, '"' ∉ p.content.toList)
    (ss : List String) :
    ((∀ t ∈ ps.filterMap Piece.string?, ¬Odd (endBackslashes t)) →
      read ⟨ss, .outside⟩ (ps.flatMap Piece.written) =
        ⟨ss ++ ps.filterMap Piece.string?, .outside⟩) ∧
    ((∃ t ∈ ps.filterMap Piece.string?, Odd (endBackslashes t)) →
      (read ⟨ss, .outside⟩ (ps.flatMap Piece.written)).Tainted) := by
  induction ps generalizing ss with
  | nil => simp [read]
  | cons p ps ih =>
    rw [List.forall_mem_cons] at hps
    obtain ⟨hp, hps⟩ := hps
    rw [List.flatMap_cons, read_append]
    cases p with
    | plain text =>
      have hread := read_outside hp ss
      rw [Piece.content] at hread
      rw [Piece.written, hread]
      exact ih hps ss
    | quoted text =>
      have hread := read_quoted hp ss
      have hstrings : (Piece.quoted text :: ps).filterMap Piece.string? =
          text :: ps.filterMap Piece.string? := rfl
      rw [Piece.content] at hread
      rw [Piece.written, hread, hstrings]
      by_cases hodd : Odd (endBackslashes text)
      · rw [if_pos hodd]
        refine ⟨fun h ↦ absurd hodd (h text List.mem_cons_self), fun _ ↦ Tainted.read ?_ _⟩
        exact .inr (List.mem_append_right _ (List.mem_singleton_self _))
      · rw [if_neg hodd, List.forall_mem_cons, List.exists_mem_cons_iff]
        obtain ⟨heven, htainted⟩ := ih hps (ss ++ [text])
        refine ⟨fun h ↦ ?_, fun h ↦ htainted (h.resolve_left hodd)⟩
        rw [heven h.2, List.append_assoc, List.singleton_append]

/-- A scan finds exactly the strings that were meant, if and only if none of them ends in an odd
number of backslashes. -/
theorem read_pieces_eq_iff {ps : List Piece} (hps : ∀ p ∈ ps, '"' ∉ p.content.toList) :
    read {} (ps.flatMap Piece.written) = { strings := ps.filterMap Piece.string? } ↔
      ∀ t ∈ ps.filterMap Piece.string?, ¬Odd (endBackslashes t) := by
  obtain ⟨heven, htainted⟩ := read_pieces hps []
  constructor
  · intro hread t ht hodd
    have htaint := htainted ⟨t, ht, hodd⟩
    replace hread : read ⟨[], .outside⟩ (ps.flatMap Piece.written) = _ := hread
    rw [hread] at htaint
    -- The strings that were meant contain no double quote, and no string is open.
    rcases htaint with ⟨u, hu, hq⟩ | hq
    · obtain ⟨p, hp, hpu⟩ := List.mem_filterMap.1 hu
      cases p with
      | plain _ => simp [Piece.string?] at hpu
      | quoted text =>
        obtain rfl := Option.some.inj hpu
        exact hps _ hp hq
    · exact absurd hq List.not_mem_nil
  · exact heven

end Scan

/-! ## The pieces of a drawing -/

/-- Whether a text is the same to a scan inside quotes and outside. -/
def Plain (text : String) : Prop := '"' ∉ text.toList ∧ '\\' ∉ text.toList

/-- The strings that are written for a node, in order. -/
def Config.attributes (c : Config) (n : Node) : List String :=
  let style := c.palette.nodeStyle n
  [style.fontColor, "filled", style.fillColor, style.shape,
    escapeLabel (n.caption c.missingLabel)]

/-- The pieces of the lines of a visit. -/
def Visit.pieces (c : Config) (v : Visit) : List Scan.Piece :=
  let style := c.palette.nodeStyle v.node
  [.plain (edgeLine v.parent? v.id ++ "  " ++ toString v.id ++ " [fontcolor="),
    .quoted style.fontColor, .plain ",style=", .quoted "filled", .plain ",fillcolor=",
    .quoted style.fillColor, .plain ",shape=", .quoted style.shape, .plain ",label=",
    .quoted (escapeLabel (v.node.caption c.missingLabel)), .plain "];\n"]

theorem Visit.flatMap_written_pieces (c : Config) (v : Visit) :
    (v.pieces c).flatMap Scan.Piece.written = (v.text c).toList := by
  unfold pieces text Config.nodeLine
  simp [Scan.Piece.written]

theorem Visit.filterMap_string?_pieces (c : Config) (v : Visit) :
    (v.pieces c).filterMap Scan.Piece.string? = c.attributes v.node := rfl

theorem quote_notMem_toDigits (n : Nat) : '"' ∉ Nat.toDigits 10 n := by
  intro hq
  have hdigit := Nat.isDigit_of_mem_toDigits (by decide) (by decide) hq
  exact absurd hdigit (by decide)

theorem quote_notMem_edgeLine (parent? : Option Nat) (id : Nat) :
    '"' ∉ (edgeLine parent? id).toList := by
  cases parent? with
  | none => simp [edgeLine]
  | some parent => simp [edgeLine, quote_notMem_toDigits]

theorem plain_shape (k : NodeClass) : Plain k.shape := by
  cases k <;> simp [Plain, NodeClass.shape]

/-- Whether all colours are plain. -/
def Palette.Plain (p : Palette) : Prop :=
  ∀ k, Dot.Plain (p.style k).fontColor ∧ Dot.Plain (p.style k).fillColor

theorem Palette.plain_default : Palette.Plain {} := by
  intro k
  cases k <;> simp [Dot.Plain, Palette.style]

section

variable {c : Config} (hc : c.palette.Plain)

include hc

/-- With plain colours no piece contains a double quote. -/
theorem Visit.quote_notMem_content (v : Visit) :
    ∀ p ∈ v.pieces c, '"' ∉ p.content.toList := by
  have hid := quote_notMem_toDigits v.id
  have hedge := quote_notMem_edgeLine v.parent? v.id
  have hcolours := hc v.node.nodeClass
  have hshape := plain_shape v.node.nodeClass
  have hlabel : '"' ∉ (escapeLabel (v.node.caption c.missingLabel)).toList := fun hq ↦
    quote_notMem_escapeLabel hq rfl
  rw [← c.palette.shape_style] at hshape
  rw [c.palette.style_nodeClass] at hcolours hshape
  simp [pieces, Scan.Piece.content, hid, hedge, hcolours.1.1, hcolours.2.1, hshape.1, hlabel]

/-- With plain colours only the label of a node may end in a backslash. -/
theorem Config.forall_mem_attributes_iff (n : Node) :
    (∀ t ∈ c.attributes n, ¬Odd (endBackslashes t)) ↔
      ¬Odd (endBackslashes (escapeLabel (n.caption c.missingLabel))) := by
  have hplain : ∀ {t : String}, Dot.Plain t → ¬Odd (endBackslashes t) := by
    intro t ht
    rw [endBackslashes_eq_zero ht.2]
    decide
  have hfont := hplain (hc n.nodeClass).1
  have hfill := hplain (hc n.nodeClass).2
  have hshape := hplain (plain_shape n.nodeClass)
  have hfilled := hplain (t := "filled") (by simp [Dot.Plain])
  rw [← c.palette.shape_style] at hshape
  rw [c.palette.style_nodeClass] at hfont hfill hshape
  simp only [attributes, List.forall_mem_cons, hfont, hfilled, hfill, hshape, not_false_eq_true,
    true_and, List.not_mem_nil, false_implies, implies_true, and_true]

end

end Dot

open Dot

/-- The body of a drawing in pieces. -/
theorem Tree.toList_block (c : Config) (parent? : Option Nat) (id : Nat) (t : Tree) :
    (t.block c parent? id).toList =
      ((t.visits parent? id).flatMap (Visit.pieces c)).flatMap Scan.Piece.written := by
  rw [block_eq_join, String.toList_join, List.flatMap_map, List.flatMap_assoc]
  congr 1
  funext v
  exact (v.flatMap_written_pieces c).symm

theorem Tree.filterMap_string?_pieces (c : Config) (parent? : Option Nat) (id : Nat) (t : Tree) :
    ((t.visits parent? id).flatMap (Visit.pieces c)).filterMap Scan.Piece.string? =
      t.nodes.flatMap c.attributes := by
  rw [List.filterMap_flatMap, ← t.map_node_visits parent? id, List.flatMap_map]
  simp only [Visit.filterMap_string?_pieces]

/-- With plain colours the body of a drawing is scanned as it was meant, if and only if no label
ends in an odd number of backslashes. -/
theorem Tree.scan_block_eq_iff {c : Config} (hc : c.palette.Plain) (parent? : Option Nat)
    (id : Nat) (t : Tree) :
    scan (t.block c parent? id) = { strings := t.nodes.flatMap c.attributes } ↔
      ∀ n ∈ t.nodes, ¬Odd (endBackslashes (escapeLabel (n.caption c.missingLabel))) := by
  have hquote : ∀ p ∈ (t.visits parent? id).flatMap (Visit.pieces c), '"' ∉ p.content.toList := by
    intro p hp
    obtain ⟨v, -, hpv⟩ := List.mem_flatMap.1 hp
    exact v.quote_notMem_content hc p hpv
  rw [scan, t.toList_block, ← t.filterMap_string?_pieces c parent? id,
    Scan.read_pieces_eq_iff hquote, t.filterMap_string?_pieces]
  simp only [List.forall_mem_flatMap, Config.forall_mem_attributes_iff hc]

/-- **Quoted strings.** Scanning the body of a drawing in the default colours ends outside strings
and finds the five strings of every node, in the order of the nodes, if and only if no label, as it
is written, ends in an odd number of backslashes. -/
theorem scan_body_eq_iff (c : Config) (t : Tree) :
    let c : Config := { c with palette := {} }
    ∃ body : String,
      toDotWith t c =
        "# File auto-generated by " ++ c.toolName ++ "\n\ndigraph " ++ c.graphName ++ " \x7b\n"
          ++ body ++ "\x7d" ∧
      (scan body = { strings := t.nodes.flatMap c.attributes, place := .outside } ↔
        ∀ n ∈ t.nodes, ¬Odd (endBackslashes (escapeLabel (n.caption c.missingLabel)))) := by
  intro c
  have hc : c.palette.Plain := Palette.plain_default
  exact ⟨t.block c none 0, toDotWith_eq t c, t.scan_block_eq_iff hc none 0⟩

end TreeDrawing
