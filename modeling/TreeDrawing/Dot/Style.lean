import TreeDrawing.Dot.Palette
import TreeDrawing.Tree.Basic

/-!
# How a node looks

The class of a node decides its shape and which colours of the palette it takes. Nodes without a
value are the leaves of the drawing, whatever their kind and whether or not they have children.

A label is written between double quotes, so a double quote inside it is written as a character
reference. Nothing else is changed.
-/

namespace TreeDrawing

/-- The three ways a node can look. -/
inductive NodeClass where
  | interior
  | capture
  | leaf
  deriving DecidableEq

/-- Nodes without a value are leaves; the others are told apart by their kind. -/
def Node.nodeClass (n : Node) : NodeClass :=
  match n.value?, n.kind with
  | none, _ => .leaf
  | some _, .capture => .capture
  | some _, .ordinary => .interior

/-- The text that labels a node: its value, or else its token. -/
def Node.label? (n : Node) : Option String := n.value?.or n.token?

namespace Node

variable {n m : Node}

theorem label?_of_value? {value : String} (h : n.value? = some value) : n.label? = some value := by
  rw [label?, h, Option.some_or]

theorem label?_of_value?_eq_none (h : n.value? = none) : n.label? = n.token? := by
  rw [label?, h, Option.none_or]

theorem nodeClass_eq_leaf_iff : n.nodeClass = .leaf ↔ n.value? = none := by
  rcases n with ⟨_ | _, _ | _, _⟩ <;> simp [nodeClass]

theorem nodeClass_eq_capture_iff :
    n.nodeClass = .capture ↔ n.value? ≠ none ∧ n.kind = .capture := by
  rcases n with ⟨_ | _, _ | _, _⟩ <;> simp [nodeClass]

theorem nodeClass_eq_interior_iff :
    n.nodeClass = .interior ↔ n.value? ≠ none ∧ n.kind = .ordinary := by
  rcases n with ⟨_ | _, _ | _, _⟩ <;> simp [nodeClass]

/-- Two nodes are of one class if neither has a value, or both have one and are of one kind. -/
theorem nodeClass_eq_iff : n.nodeClass = m.nodeClass ↔
    (n.value? = none ↔ m.value? = none) ∧ (n.value? ≠ none → n.kind = m.kind) := by
  rcases n with ⟨_ | _, _ | _, _⟩ <;> rcases m with ⟨_ | _, _ | _, _⟩ <;> simp [nodeClass]

end Node

namespace NodeClass

/-- The name of a class. -/
def name : NodeClass → String
  | interior => "Interior"
  | capture => "Capture"
  | leaf => "Leaf"

/-- The outline of a node. -/
def shape : NodeClass → String
  | interior => "oval"
  | capture => "rectangle"
  | leaf => "rect"

end NodeClass

namespace Dot

/-- Outline and colours of a node. -/
structure Style where
  fontColor : String
  fillColor : String
  shape : String
  deriving DecidableEq

/-- How the nodes of a class look. Captures take the colours of interior nodes. -/
def Palette.style (p : Palette) (c : NodeClass) : Style :=
  match c with
  | .interior => ⟨p.interiorFont, p.interiorFill, c.shape⟩
  | .capture => ⟨p.interiorFont, p.interiorFill, c.shape⟩
  | .leaf => ⟨p.leafFont, p.leafFill, c.shape⟩

theorem Palette.shape_style (p : Palette) (c : NodeClass) : (p.style c).shape = c.shape := by
  cases c <;> rfl

/-- One character of a label as it is written. -/
def escapeChar (c : Char) : List Char := if c = '"' then "&quot;".toList else [c]

/-- A label as it is written. -/
def escapeLabel (label : String) : String := .ofList (label.toList.flatMap escapeChar)

end Dot

end TreeDrawing
