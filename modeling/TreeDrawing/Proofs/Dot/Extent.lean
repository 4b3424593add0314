import TreeDrawing.Proofs.Dot.Setting
import TreeDrawing.Proofs.Json.Ending
import TreeDrawing.Proofs.Tree.RoundTrip

/-!
# Documents that are cut short or continued

Whatever is left out of a tree or a configuration has a default, so one might fear that a document
of which the end is missing passes for a smaller one. It does not, since the brackets of the
outermost value are still open, and behind that value nothing may stand but blanks.
-/

namespace TreeDrawing

open Json Dot

theorem Dot.Config.ofJson_eq_error_iff {text : String} {e : Json.Error} :
    Config.ofJson text = .error (.config "Failed to parse Graphviz config" e) ↔
      (Config.reader maxNesting).document text = .error e := by
  unfold Config.ofJson
  split
  · next h => simp [h]
  · next h => simp [h]

/-- **The extent of a document.** Take a text and the same text with more behind it. If the first
holds a tree, then the second holds it too if what is added is blank, and is refused for it
otherwise. If the second holds a tree and what is missing from the first is not blank, then the
first is refused. The same goes for configurations. -/
theorem ofJson_append (text more : String) :
    (∀ t : Tree, Tree.ofJson text = .ok t →
      (Blank more.toList → Tree.ofJson (text ++ more) = .ok t) ∧
      (¬Blank more.toList →
        ∃ p, Tree.ofJson (text ++ more) = .error ⟨⟨.trailingCharacters, p⟩⟩)) ∧
    (∀ t : Tree, Tree.ofJson (text ++ more) = .ok t → ¬Blank more.toList →
      ∃ e, Tree.ofJson text = .error ⟨e⟩) ∧
    (∀ c : Config, Config.ofJson text = .ok c →
      (Blank more.toList → Config.ofJson (text ++ more) = .ok c) ∧
      (¬Blank more.toList → ∃ p, Config.ofJson (text ++ more) =
        .error (.config "Failed to parse Graphviz config" ⟨.trailingCharacters, p⟩))) ∧
    ∀ c : Config, Config.ofJson (text ++ more) = .ok c → ¬Blank more.toList →
      ∃ e, Config.ofJson text = .error (.config "Failed to parse Graphviz config" e) := by
  have htree := (Tree.meets_reader maxNesting).1
  have hconfig := Config.meets_reader 125
  simp only [Tree.ofJson_eq_ok_iff_document, Tree.ofJson_eq_error_iff,
    Config.ofJson_eq_ok_iff_document, Config.ofJson_eq_error_iff]
  refine ⟨fun t h ↦ ⟨?_, ?_⟩, fun t h ↦ ?_, fun c h ↦ ⟨?_, ?_⟩, fun c h ↦ ?_⟩
  · exact htree.document_append_of_blank h
  · exact htree.document_append_of_not_blank h
  · exact htree.exists_error_of_append h
  · exact hconfig.document_append_of_blank h
  · exact hconfig.document_append_of_not_blank h
  · exact hconfig.exists_error_of_append h

/-- A tree of two levels without its last bracket, and a configuration with a comma behind it. -/
theorem ofJson_append_sign :
    (Tree.ofJson ("\x7b\"children\":[[]]" ++ "\x7d") = .ok (.node {} [.single {}]) ∧
      ¬Blank "\x7d".toList ∧ ∃ e, Tree.ofJson "\x7b\"children\":[[]]" = .error ⟨e⟩) ∧
    Config.ofJson "\x7b\x7d" = .ok {} ∧ ¬Blank " ,".toList ∧
      ∃ p, Config.ofJson ("\x7b\x7d" ++ " ,") =
        .error (.config "Failed to parse Graphviz config" ⟨.trailingCharacters, p⟩) := by
  have hbrace : ¬Blank "\x7d".toList := fun h ↦ absurd (h '\x7d' (by decide)) (by decide)
  have hcomma : ¬Blank " ,".toList := fun h ↦ absurd (h ',' (by decide)) (by decide)
  have hleaf : TreeText 125 ['[', ']'] (.single {}) :=
    ⟨[], .listed ⟨[']'], rfl, .done⟩ (by decide), rfl⟩
  have hchildren : ClauseText (KindText 126) (ForestText 126) _ (.children [.single {}]) :=
    ⟨_, rfl, Entries.first hleaf .done⟩
  have htree : TreeText 127 _ (.node {} [.single {}]) :=
    ⟨[.children [.single {}]],
      RecordText.of_entries (.first (EntryText.written hchildren) .done) (by decide), rfl⟩
  have hreadTree :
      Tree.ofJson ("\x7b\"children\":[[]]" ++ "\x7d") = .ok (.node {} [.single {}]) := by
    rw [Tree.ofJson_eq_ok_iff_document, (Tree.meets_reader maxNesting).1.document_eq_ok_iff]
    exact ⟨[], _, [], by decide, blank_nil, htree, blank_nil⟩
  have hconfig : Config.Text ['\x7b', '\x7d'] {} :=
    ⟨[], RecordText.of_entries .done (by decide), rfl⟩
  have hreadConfig : Config.ofJson "\x7b\x7d" = .ok {} :=
    Config.ofJson_eq_ok_iff_text.2 ⟨[], _, [], by decide, blank_nil, hconfig, blank_nil⟩
  exact ⟨⟨hreadTree, hbrace, (ofJson_append _ _).2.1 _ hreadTree hbrace⟩,
    hreadConfig, hcomma, ((ofJson_append _ _).2.2.1 _ hreadConfig).2 hcomma⟩

end TreeDrawing
