import TreeDrawing.Proofs.Json.Ending
import TreeDrawing.Proofs.Tree.Place
import TreeDrawing.Proofs.Tree.RoundTrip

/-!
# Different trees have different documents

A document tells everything about its tree, and it tells so itself: no further text is needed to see
where a tree ends, and no bound on depth comes in. Reading is the proof of this, although the reader
of whole documents gives up on deep trees. With room for the deeper one of two trees, both are read
back from the front of a text, whatever stands behind them. If the texts are the same, then so are
the trees.
-/

namespace TreeDrawing

open Json

/-- The text of a tree settles the tree, and where its text ends. -/
theorem Tree.chars_append_inj {t u : Tree} {s s' : List Char}
    (h : t.chars ++ s = u.chars ++ s') : t = u ∧ s = s' := by
  let room := 2 * max t.levels u.levels
  have ht : TreeText room t.chars t := t.treeText_chars room (by omega)
  have hu : TreeText room u.chars u := u.treeText_chars room (by omega)
  exact (Tree.meets_reader room).1.append_inj ht hu h

theorem Tree.toJson_append_inj {t u : Tree} {s s' : String}
    (h : t.toJson ++ s = u.toJson ++ s') : t = u ∧ s = s' := by
  have hchars := congrArg String.toList h
  rw [String.toList_append, String.toList_append, t.toList_toJson, u.toList_toJson] at hchars
  obtain ⟨htu, hs⟩ := Tree.chars_append_inj hchars
  exact ⟨htu, String.toList_inj.1 hs⟩

/-- **Different trees have different documents.** Two trees of any depth have the same document
exactly if they are the same, which is also what comparing them finds: in every place there is a
node in both or in neither, with the same kind, value and token. -/
theorem toJson_eq_iff (t u : Tree) :
    (t.toJson = u.toJson ↔ t = u) ∧ (t.same u = true ↔ t = u) ∧
      (t = u ↔ ∀ p : Tree.Place, (t.at? p).map Tree.root = (u.at? p).map Tree.root) := by
  refine ⟨⟨fun h ↦ ?_, congrArg Tree.toJson⟩, Tree.same_iff_eq t u, ?_, Tree.ext_at?⟩
  · have happend : t.toJson ++ "" = u.toJson ++ "" := congrArg (· ++ "") h
    exact (Tree.toJson_append_inj happend).1
  · rintro rfl p
    rfl

/-- An empty value is written, an absent one is not. -/
example : (Tree.interior "").chars = "\x7b\"kind\":\"ordinary\",\"value\":\"\"\x7d".toList ∧
    (Tree.single {}).chars = "\x7b\"kind\":\"ordinary\"\x7d".toList := by decide

end TreeDrawing
