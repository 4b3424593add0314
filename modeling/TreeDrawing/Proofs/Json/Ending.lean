import TreeDrawing.Proofs.Json.Reader

/-!
# Where a value ends

A reader that meets a language does not look beyond the piece it takes: whatever stands behind the
piece, the same piece is taken, and what stands behind it is left. So a piece of text settles not
only what it stands for but also where it ends, and no piece begins another.

For a whole document this means that it cannot be continued by anything but blanks. Nor can it be
cut short: a text that is cut off before its last proper character would be continued by what is
missing.

## Main results

* `Reader.Meets.append_inj`: a piece settles where it ends.
* `Reader.Meets.document_append_of_not_blank`: a document that is continued is refused.
* `Reader.Meets.exists_error_of_append`: so is a document that is cut short.
-/

namespace TreeDrawing.Json.Reader

variable {α : Type} {r : Reader α} {L : Lang α}

/-! ## Pieces -/

/-- A piece is read whatever stands behind it. -/
theorem Meets.read_text (h : r.Meets L) {w : List Char} {a : α} (hw : L w a) (s : List Char) :
    r.read (w ++ s) = .ok (a, s) :=
  h.read_eq_ok_iff.2 ⟨[], w, rfl, blank_nil, hw⟩

/-- What is read at the front of a text is read there if the text goes on. -/
theorem Meets.read_append (h : r.Meets L) {s rest : List Char} {a : α}
    (hs : r.read s = .ok (a, rest)) (more : List Char) :
    r.read (s ++ more) = .ok (a, rest ++ more) := by
  obtain ⟨b, w, rfl, hb, hw⟩ := h.read_eq_ok_iff.1 hs
  exact h.read_eq_ok_iff.2 ⟨b, w, by simp only [List.append_assoc], hb, hw⟩

/-- A piece settles what it stands for and where it ends. -/
theorem Meets.append_inj (h : r.Meets L) {v w s s' : List Char} {a b : α} (hv : L v a)
    (hw : L w b) (heq : v ++ s = w ++ s') : a = b ∧ s = s' := by
  have hread := h.read_text hv s
  rw [heq, h.read_text hw s'] at hread
  obtain ⟨hb, hs'⟩ := ok_inj hread
  exact ⟨hb.symm, hs'.symm⟩

/-! ## Documents -/

/-- Text that is left over is refused where it begins. -/
theorem document_eq_error_of_read {text : String} {a : α} {rest : List Char}
    (hread : r.read text.toList = .ok (a, rest)) (hrest : ¬Blank rest) :
    ∃ p, r.document text = .error ⟨.trailingCharacters, p⟩ := by
  unfold document
  dsimp only
  rw [hread]
  dsimp only
  split
  · next hblank => exact absurd (skipBlanks_eq_nil_iff.1 hblank) hrest
  · exact ⟨_, rfl⟩

section

variable {text more : String} {a b : α}

/-- Blanks may be added to a document. -/
theorem Meets.document_append_of_blank (h : r.Meets L) (hs : r.document text = .ok a)
    (hmore : Blank more.toList) : r.document (text ++ more) = .ok a := by
  obtain ⟨rest, hread, hrest⟩ := document_eq_ok_iff_read.1 hs
  have happend := h.read_append hread more.toList
  rw [← String.toList_append] at happend
  exact document_eq_ok_iff_read.2 ⟨_, happend, hrest.append hmore⟩

/-- Nothing else may be added. -/
theorem Meets.document_append_of_not_blank (h : r.Meets L) (hs : r.document text = .ok a)
    (hmore : ¬Blank more.toList) :
    ∃ p, r.document (text ++ more) = .error ⟨.trailingCharacters, p⟩ := by
  obtain ⟨rest, hread, -⟩ := document_eq_ok_iff_read.1 hs
  have happend := h.read_append hread more.toList
  rw [← String.toList_append] at happend
  refine document_eq_error_of_read happend fun hblank ↦ hmore fun c hc ↦ ?_
  exact hblank c (List.mem_append_right rest hc)

/-- What is missing from a document that is cut short may not be added, so that what is there is no
document. -/
theorem Meets.exists_error_of_append (h : r.Meets L) (hs : r.document (text ++ more) = .ok a)
    (hmore : ¬Blank more.toList) : ∃ e, r.document text = .error e := by
  cases htext : r.document text with
  | error e => exact ⟨e, rfl⟩
  | ok b =>
    obtain ⟨p, hp⟩ := h.document_append_of_not_blank htext hmore
    exact nomatch hs.symm.trans hp

end

end TreeDrawing.Json.Reader
