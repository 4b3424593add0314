import TreeDrawing.Proofs.Json.Depth
import TreeDrawing.Proofs.Tree.Document

/-!
# How deep a tree in a document can be

A reader of trees is given room for so many nested lists and records. The room decides two things.
It bounds the levels of whatever is read, for each level but the last takes two nested brackets,
the record of the node and the list of its children, and no way of giving a node avoids either. And
it is all that less room takes away: what can be read with more room is read alike, or refused as
nested too deeply.

## Main results

* `TreeText.levels_le`: the levels of a tree that is described with a given room.
* `Tree.reader_shallower`: readers with different room agree up to depth.
-/

namespace TreeDrawing

open Json

/-! ## Levels -/

theorem Forest.levels_le_iff {f : Forest} {n : Nat} :
    Forest.levels f ≤ n ↔ ∀ t ∈ f, t.levels ≤ n := by
  induction f with
  | nil => simp [Forest.levels]
  | cons t f ih => rw [Forest.levels, Nat.max_le, ih, List.forall_mem_cons]

theorem Tree.levels_eq (t : Tree) : t.levels = 1 + Forest.levels t.children := by
  rcases t with ⟨n, cs⟩
  rfl

theorem Tree.levels_pos (t : Tree) : 0 < t.levels := by
  rw [t.levels_eq]
  omega

/-- The children of a described tree are those that a clause gives it, or there are none. -/
theorem Clause.children_tree (as : List Clause) :
    (tree as).children = [] ∨ children (tree as).children ∈ as := by
  have hcs : (tree as).children = (as.findSome? children?).getD [] := rfl
  rw [hcs]
  cases h : as.findSome? children? with
  | none => exact .inl rfl
  | some cs =>
    obtain ⟨a, ha, hacs⟩ := List.exists_of_findSome?_eq_some h
    cases a with
    | children cs' =>
      obtain rfl : cs' = cs := Option.some.inj hacs
      exact .inr ha
    | kind | value | token => simp [children?] at hacs

/-- A tree takes two nested brackets for each level but the last, which takes one, and a list of
trees takes one more than its trees. -/
theorem levels_le_of_text (room : Nat) :
    (∀ w t, TreeText room w t → 2 * t.levels ≤ room + 1) ∧
      ∀ w f, ForestText room w f → 2 * Forest.levels f ≤ room := by
  induction room with
  | zero => exact ⟨fun _ _ h ↦ h.elim, fun _ _ h ↦ h.elim⟩
  | succ room ih =>
    obtain ⟨htree, hforest⟩ := ih
    constructor
    · rintro w t ⟨as, hw, rfl⟩
      have hcs : 2 * Forest.levels (Clause.tree as).children ≤ room := by
        obtain hnil | hmem := Clause.children_tree as
        · rw [hnil]
          exact Nat.zero_le room
        · obtain ⟨v, hv⟩ := hw.exists_text _ hmem
          exact hforest v _ hv
      rw [Tree.levels_eq]
      omega
    · rintro w f ⟨v, rfl, hv⟩
      have hf : Forest.levels f ≤ (room + 1) / 2 := by
        rw [Forest.levels_le_iff]
        intro t ht
        obtain ⟨u, hu⟩ := hv.exists_text t ht
        have hlevels := htree u t hu
        omega
      omega

/-- The levels of a tree that is described with a given room. -/
theorem TreeText.levels_le {room : Nat} {w : List Char} {t : Tree} (h : TreeText room w t) :
    2 * t.levels ≤ room + 1 := (levels_le_of_text room).1 w t h

/-! ## Room -/

theorem Kind.reader_shallower {room room' : Nat} (h : room ≤ room') :
    (Kind.reader room).Shallower (Kind.reader room') := by
  intro s
  unfold Kind.reader
  dsimp only
  split
  · exact .inl rfl
  · exact .inl rfl
  · by_cases hroom : room = 0
    · rw [if_pos hroom]
      exact .inr ⟨_, rfl, rfl⟩
    · rw [if_neg hroom, if_neg (by omega)]
      exact .inl rfl
  · exact .inl rfl

theorem Tree.fields_shallower {kind kind' : Reader Kind} {children children' : Reader Forest}
    (hk : kind.Shallower kind') (hc : children.Shallower children') :
    List.Forall₂ RecordField.Shallower (Tree.fields kind children)
      (Tree.fields kind' children') := by
  refine .cons ?_ (.cons ?_ (.cons ?_ (.cons ?_ .nil)))
  · exact RecordField.shallower_mk (hk.map _) "kind"
  -- Texts open no brackets, so they are read alike.
  · exact RecordField.shallower_mk (.refl _) "value"
  · exact RecordField.shallower_mk (.refl _) "token"
  · exact RecordField.shallower_mk (hc.map _) "children"

/-- With less room, trees and lists of trees are read as with more, up to depth. -/
theorem Tree.reader_shallower {room room' : Nat} (h : room ≤ room') :
    (Tree.reader room).Shallower (Tree.reader room') ∧
      (Forest.reader room).Shallower (Forest.reader room') := by
  induction room generalizing room' with
  | zero =>
    cases room' with
    | zero => exact ⟨.refl _, .refl _⟩
    | succ room' =>
      rw [Tree.reader, Tree.reader, Forest.reader, Forest.reader]
      exact ⟨Reader.record_none_shallower _ _ _, Reader.list_none_shallower _⟩
  | succ room ih =>
    obtain ⟨room', rfl⟩ : ∃ n, room' = n + 1 := ⟨room' - 1, by omega⟩
    have hroom : room ≤ room' := Nat.le_of_succ_le_succ h
    obtain ⟨htree, hforest⟩ := ih hroom
    constructor
    · have hfields := Tree.fields_shallower (Kind.reader_shallower hroom) hforest
      exact Reader.record_shallower hfields "struct TreeNode" default
    · exact htree.list

end TreeDrawing
