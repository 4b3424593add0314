import Mathlib.Algebra.Ring.Nat
import TreeDrawing.Proofs.Dot.Edge
import TreeDrawing.Tree.Pending

/-!
# Counting arrows

The lines of a drawing that are edges are those with an arrow, so one might count the edges by
counting arrows. This module says what that gives: every edge has one arrow, and all others are
found in labels. In particular rewriting the double quotes of a label neither makes an arrow nor
breaks one, and none is found where a label meets what is written around it, although an arrow
begins and ends with a blank and a label may do so too.

The reason is that the text around a label, around a number and around a line always begins or ends
with a character that is not in an arrow, so that the text can be cut there
(`cuts_append_of_getLast?`).
-/

namespace TreeDrawing

open Text

namespace Dot

/-- How many arrows are found in a text. -/
def arrows (text : List Char) : Nat := cuts " -> ".toList text

theorem occurrences_arrow (text : String) : occurrences " -> " text = arrows text.toList :=
  occurrences_eq_cuts (by decide) text

theorem arrows_eq_zero_iff {text : List Char} : arrows text = 0 ↔ ¬" -> ".toList <:+: text :=
  cuts_eq_zero_iff (by decide)

theorem arrows_eq_zero {text : List Char} (h : '>' ∉ text) : arrows text = 0 :=
  cuts_eq_zero_of_notMem (by decide) h

theorem arrows_append {u : List Char} (hu : ∀ c ∈ u.getLast?, c ∉ " -> ".toList) (v : List Char) :
    arrows (u ++ v) = arrows u + arrows v :=
  cuts_append_of_getLast? (by decide) hu v

theorem arrows_arrow_append (v : List Char) : arrows (" -> ".toList ++ v) = 1 + arrows v :=
  cuts_append_self (by decide) v

theorem arrows_escapeLabel (label : String) :
    arrows (escapeLabel label).toList = arrows label.toList := by
  rw [toList_escapeLabel]
  exact cuts_flatMap_escapeChar (by simp) (by simp) label.toList

/-! ## Lines -/

theorem arrows_toString_append (n : Nat) (v : List Char) :
    arrows ((toString n).toList ++ v) = arrows v := by
  have hblank : ∀ c ∈ " -> ".toList, ¬c.isDigit = true := by simp
  have hend : ∀ c ∈ (toString n).toList.getLast?, c ∉ " -> ".toList := fun c hc h ↦
    hblank c h (isDigit_of_mem_toString (List.mem_of_getLast? hc))
  have hnone : '>' ∉ (toString n).toList := fun h ↦
    hblank '>' (by decide) (isDigit_of_mem_toString h)
  rw [arrows_append hend, arrows_eq_zero hnone, Nat.zero_add]

theorem arrows_edgeLine (parent id : Nat) : arrows (edgeLine (some parent) id).toList = 1 := by
  simp only [edgeLine, String.toList_append, List.append_assoc]
  rw [arrows_toString_append, arrows_arrow_append, arrows_toString_append,
    arrows_eq_zero (by decide)]

/-- In the default colours, the arrows in the line of a node are those of its label. -/
theorem arrows_nodeLine (id : Nat) (n : Node) :
    arrows (Config.nodeLine {} id n).toList = arrows (n.caption "null").toList := by
  let front := "  ".toList ++ (toString id).toList ++ Palette.colours {} n.nodeClass
    ++ n.nodeClass.shape.toList ++ "\",label=\"".toList
  have hline : (Config.nodeLine {} id n).toList =
      front ++ (escapeLabel (n.caption "null")).toList ++ "\"];\n".toList := by
    have happend := append_nodeLine {} id n []
    simp only [List.nil_append, List.append_assoc] at happend
    simp only [front, List.append_assoc]
    exact happend
  have hnone : '>' ∉ front := by
    have hid : '>' ∉ (toString id).toList := fun h ↦ absurd (isDigit_of_mem_toString h) (by decide)
    have hcolours : '>' ∉ Palette.colours {} n.nodeClass := by cases n.nodeClass <;> decide
    have hshape : '>' ∉ n.nodeClass.shape.toList := by cases n.nodeClass <;> decide
    simp only [front, List.mem_append, not_or]
    exact ⟨⟨⟨⟨by decide, hid⟩, hcolours⟩, hshape⟩, by decide⟩
  have hfront : ∀ c ∈ front.getLast?, c ∉ " -> ".toList := by
    intro c hc
    have hquote : "\",label=\"".toList.getLast? = some '"' := rfl
    rw [List.getLast?_append, hquote, Option.some_or, Option.mem_some_iff] at hc
    rw [← hc]
    simp
  have hend : arrows "\"];\n".toList = 0 := arrows_eq_zero (by decide)
  rw [hline, arrows, cuts_append_of_head? (by simp) (by simp), ← arrows, ← arrows, hend,
    Nat.add_zero, arrows_append hfront, arrows_eq_zero hnone, Nat.zero_add, arrows_escapeLabel]

theorem arrows_append_of_endsLine {u : List Char} (hu : EndsLine u) (v : List Char) :
    arrows (u ++ v) = arrows u + arrows v := by
  refine arrows_append (fun c hc ↦ ?_) v
  rw [hu c hc]
  simp

theorem endsLine_edgeLine (parent? : Option Nat) (id : Nat) :
    EndsLine (edgeLine parent? id).toList := by
  cases parent? with
  | none => exact fun x hx ↦ nomatch hx
  | some parent =>
    rw [edgeLine, String.toList_append]
    exact endsLine_append rfl _

theorem endsLine_heading (c : Config) : EndsLine c.heading.toList := by
  have hheading : c.heading.toList = String.toList _ ++ " \x7b\n".toList := String.toList_append
  rw [hheading]
  exact endsLine_append rfl _

/-- The lines of a visit have the arrow of its edge, and the arrows of its caption. -/
theorem Visit.arrows_text (v : Visit) :
    arrows (v.text {}).toList =
      v.ends?.toList.length + arrows (v.node.caption "null").toList := by
  rw [text, String.toList_append, arrows_append_of_endsLine (endsLine_edgeLine _ _),
    arrows_nodeLine]
  rcases v with ⟨_ | parent, id, n⟩
  · have hnone : arrows (edgeLine none id).toList = 0 := arrows_eq_zero List.not_mem_nil
    rw [hnone]
    rfl
  · rw [arrows_edgeLine]
    rfl

theorem arrows_lines (vs : List Visit) :
    arrows (lines {} vs) = (vs.filterMap Visit.ends?).length +
      ((vs.map Visit.node).map fun n ↦ arrows (n.caption "null").toList).sum := by
  induction vs with
  | nil => exact arrows_eq_zero (by decide)
  | cons v vs ih =>
    have hend : EndsLine (v.text {}).toList := by
      have hline := endsLine_lines {} [v]
      rwa [lines, List.flatMap_singleton] at hline
    have hends : ((v :: vs).filterMap Visit.ends?).length =
        v.ends?.toList.length + (vs.filterMap Visit.ends?).length := by
      rw [List.filterMap_eq_flatMap_toList, List.flatMap_cons, List.length_append,
        ← List.filterMap_eq_flatMap_toList]
    rw [lines, List.flatMap_cons, ← lines, arrows_append_of_endsLine hend, v.arrows_text, ih, hends,
      List.map_cons, List.map_cons, List.sum_cons]
    omega

/-- The arrows of a drawing are those of its edges and those in its labels. -/
theorem arrows_toDot (t : Tree) :
    arrows (toDot t).toList =
      t.edges.length + (t.nodes.map fun n ↦ arrows (n.caption "null").toList).sum := by
  have hheading : arrows (Config.heading {}).toList = 0 := arrows_eq_zero (by decide)
  have hclose : arrows "\x7d".toList = 0 := arrows_eq_zero (by decide)
  rw [toDot, toList_toDotWith, List.append_assoc, arrows_append_of_endsLine (endsLine_heading {}),
    arrows_append_of_endsLine (endsLine_lines _ _), arrows_lines, hheading, hclose,
    t.map_node_visits, ← Tree.edges]
  omega

end Dot

open Dot

theorem Tree.length_edges (t : Tree) : t.edges.length = t.nodeCount - 1 := by
  rw [← List.length_map Prod.snd, t.map_snd_edges, List.length_range', t.nodeCount_eq_size]

/-- **Counting arrows.** In the drawing of a tree, in the default looks, there are as many arrows as
edges, which is one less than there are nodes, and besides those in the labels. So counting arrows
counts the edges exactly if there is no arrow in a label. -/
theorem occurrences_arrow_toDot (t : Tree) :
    occurrences " -> " (toDot t) = t.nodeCount - 1 +
      (t.nodes.map fun n ↦ occurrences " -> " (n.caption "null")).sum ∧
    (drawing t {}).edges.length = t.nodeCount - 1 ∧
    (occurrences " -> " (toDot t) = (drawing t {}).edges.length ↔
      ∀ n ∈ t.nodes, ¬" -> ".toList <:+: (n.caption "null").toList) := by
  have hcount : occurrences " -> " (toDot t) = t.nodeCount - 1 +
      (t.nodes.map fun n ↦ occurrences " -> " (n.caption "null")).sum := by
    simp only [occurrences_arrow, arrows_toDot, t.length_edges]
  have hedges : (drawing t {}).edges.length = t.nodeCount - 1 := by
    rw [edges_drawing, t.length_edges]
  refine ⟨hcount, hedges, ?_⟩
  rw [hcount, hedges, Nat.add_eq_left, List.sum_eq_zero_iff_forall_eq_nat, List.forall_mem_map]
  simp only [occurrences_arrow, arrows_eq_zero_iff]

end TreeDrawing
