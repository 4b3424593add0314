import TreeDrawing.Json.Scalar
import TreeDrawing.Proofs.Json.Text

/-!
# Readers and their languages

A reader *meets* a language if it takes exactly the pieces of that language off the front of a
text, whatever stands behind them. Both halves are needed of a reader of composite values: that it
takes nothing else, and that it finds every piece that is there. Stated as one equivalence, the law
passes from the readers of the parts to the reader of the whole.

The law also asks how pieces begin. Before an item a list may end, so an item must not look like
the end of a list, and no piece may begin with a blank, since the blanks before it are not part of
it.

## Main definitions

* `Reader.Meets`: the law.
* `Reader.Meets.document_eq_ok_iff`: what it says about whole documents.
-/

namespace TreeDrawing.Json

/-! ## Blanks -/

theorem isBlank_iff {c : Char} : isBlank c = true ↔ c ∈ [' ', '\n', '\t', '\r'] := by
  simp [isBlank, or_assoc]

theorem blank_nil : Blank [] := fun _ h ↦ absurd h List.not_mem_nil

theorem Blank.append {v w : List Char} (hv : Blank v) (hw : Blank w) : Blank (v ++ w) := by
  intro c hc
  exact (List.mem_append.1 hc).elim (hv c) (hw c)

theorem blank_takeWhile (s : List Char) : Blank (s.takeWhile isBlank) :=
  fun c hc ↦ isBlank_iff.1 (List.all_eq_true.1 List.all_takeWhile c hc)

/-- What is passed over is blank. -/
theorem exists_blank_append_skipBlanks (s : List Char) : ∃ b, Blank b ∧ s = b ++ skipBlanks s :=
  ⟨_, blank_takeWhile s, List.takeWhile_append_dropWhile.symm⟩

theorem skipBlanks_append {b : List Char} (hb : Blank b) (s : List Char) :
    skipBlanks (b ++ s) = skipBlanks s :=
  List.dropWhile_append_of_pos fun c hc ↦ isBlank_iff.2 (hb c hc)

theorem skipBlanks_cons {c : Char} (hc : isBlank c = false) (s : List Char) :
    skipBlanks (c :: s) = c :: s := List.dropWhile_cons_of_neg (by rw [hc]; decide)

theorem skipBlanks_eq_nil_iff {s : List Char} : skipBlanks s = [] ↔ Blank s := by
  constructor
  · intro h
    obtain ⟨b, hb, hs⟩ := exists_blank_append_skipBlanks s
    rw [h, List.append_nil] at hs
    exact hs ▸ hb
  · intro h
    have hs := skipBlanks_append h []
    rwa [List.append_nil] at hs

theorem skipBlanks_eq_cons_iff {s rest : List Char} {c : Char} (hc : isBlank c = false) :
    skipBlanks s = c :: rest ↔ ∃ w, s = w ++ rest ∧ Sign c w := by
  constructor
  · intro h
    obtain ⟨b, hb, hs⟩ := exists_blank_append_skipBlanks s
    refine ⟨b ++ [c], ?_, b, hb, rfl⟩
    rw [List.append_assoc, List.singleton_append, ← h, ← hs]
  · rintro ⟨w, rfl, b, hb, rfl⟩
    rw [List.append_assoc, skipBlanks_append hb, List.singleton_append, skipBlanks_cons hc]

/-! ## Words and signs -/

theorem spell_eq_ok_iff {ls s rest : List Char} : spell ls s = .ok rest ↔ s = ls ++ rest := by
  fun_induction spell ls s with
  | case1 s => simp
  | case2 => simp
  | case3 ls c s ih => rw [ih, List.cons_append, List.cons.injEq, eq_self, true_and]
  | case4 l ls c s hne => simp [Ne.symm hne]

theorem colon_eq_ok_iff {s rest : List Char} :
    colon s = .ok rest ↔ ∃ w, s = w ++ rest ∧ Sign ':' w := by
  rw [← skipBlanks_eq_cons_iff (by decide)]
  unfold colon
  split
  · next h => simp [h]
  · next h => simp [h]
  · next h _ => simp_all

/-! ## The law -/

/-- A piece begins with a character that is neither blank nor the end of a list. -/
def Begins (w : List Char) : Prop := ∃ c v, w = c :: v ∧ isBlank c = false ∧ c ≠ ']'

theorem Begins.skipBlanks_append {b w : List Char} (hw : Begins w) (hb : Blank b)
    (s : List Char) : skipBlanks (b ++ (w ++ s)) = w ++ s := by
  obtain ⟨c, v, rfl, hc, -⟩ := hw
  rw [Json.skipBlanks_append hb, List.cons_append, skipBlanks_cons hc]

theorem TextLiteral.begins {w : List Char} {t : String} (h : TextLiteral w t) : Begins w := by
  obtain ⟨v, rfl, -⟩ := h
  exact ⟨'"', v, rfl, by decide, by decide⟩

namespace Reader

variable {α β : Type}

/-- The reader takes exactly the pieces of a language off the front of a text. -/
structure Meets (r : Reader α) (L : Lang α) : Prop where
  begins : ∀ {w : List Char} {a : α}, L w a → Begins w
  read_eq_ok_iff : ∀ {s rest : List Char} {a : α},
    r.read s = .ok (a, rest) ↔ ∃ b w, s = b ++ (w ++ rest) ∧ Blank b ∧ L w a

theorem Meets.map {r : Reader α} {L : Lang α} (h : r.Meets L) (f : α → β) :
    (r.map f).Meets fun w b ↦ ∃ a, L w a ∧ f a = b where
  begins := fun ⟨_, ha, _⟩ ↦ h.begins ha
  read_eq_ok_iff {s rest b} := by
    constructor
    · intro hs
      obtain ⟨⟨a, rest'⟩, ha, hb⟩ := map_eq_ok_iff.1 hs
      rw [Prod.mk.injEq] at hb
      obtain ⟨rfl, rfl⟩ := hb
      obtain ⟨g, w, hs, hg, hw⟩ := h.read_eq_ok_iff.1 ha
      exact ⟨g, w, hs, hg, a, hw, rfl⟩
    · rintro ⟨g, w, hs, hg, a, hw, rfl⟩
      exact map_eq_ok_iff.2 ⟨(a, rest), h.read_eq_ok_iff.2 ⟨g, w, hs, hg, hw⟩, rfl⟩

theorem Meets.of_iff {r : Reader α} {L L' : Lang α} (h : r.Meets L)
    (hL : ∀ w a, L w a ↔ L' w a) : r.Meets L' := by
  obtain rfl : L = L' := by
    funext w a
    exact propext (hL w a)
  exact h

/-- A text is a document if nothing but blanks is left of it. -/
theorem document_eq_ok_iff_read {r : Reader α} {text : String} {a : α} :
    r.document text = .ok a ↔ ∃ rest, r.read text.toList = .ok (a, rest) ∧ Blank rest := by
  unfold Reader.document
  dsimp only
  constructor
  · intro h
    split at h
    · simp at h
    · next a' rest hread =>
      split at h
      · next hrest =>
        rw [Except.ok.injEq] at h
        exact ⟨rest, h ▸ hread, skipBlanks_eq_nil_iff.1 hrest⟩
      · simp at h
  · rintro ⟨rest, hread, hrest⟩
    simp only [hread, skipBlanks_eq_nil_iff.2 hrest]

/-- A reader accepts a text exactly if the text is one piece between blanks. -/
theorem Meets.document_eq_ok_iff {r : Reader α} {L : Lang α} (h : r.Meets L) {text : String}
    {a : α} : r.document text = .ok a ↔ DocumentText L text.toList a := by
  rw [document_eq_ok_iff_read]
  constructor
  · rintro ⟨rest, hread, hrest⟩
    obtain ⟨b, w, hs, hb, hw⟩ := h.read_eq_ok_iff.1 hread
    exact ⟨b, w, rest, hs, hb, hw, hrest⟩
  · rintro ⟨b, w, rest, hs, hb, hw, hrest⟩
    exact ⟨rest, h.read_eq_ok_iff.2 ⟨b, w, hs, hb, hw⟩, hrest⟩

/-! ## Texts -/

theorem meets_text : text.Meets TextLiteral where
  begins := TextLiteral.begins
  read_eq_ok_iff {s rest t} := by
    constructor
    · intro h
      unfold text at h
      dsimp only at h
      split at h
      · next hs =>
        obtain ⟨b, hb, hs'⟩ := exists_blank_append_skipBlanks s
        obtain ⟨w, rfl, hw⟩ := readText_nil_eq_ok_iff.1 h
        exact ⟨b, '"' :: w, by rw [hs', hs, List.cons_append], hb, hw⟩
      · simp at h
    · rintro ⟨b, w, rfl, hb, hw⟩
      unfold text
      dsimp only
      rw [hw.begins.skipBlanks_append hb]
      obtain ⟨v, rfl, -⟩ := id hw
      exact readText_nil_eq_ok_iff.2 ⟨v, rfl, hw⟩

theorem meets_optionalText : optionalText.Meets OptionalText where
  begins h := by
    cases h with
    | null => exact ⟨'n', _, rfl, by decide, by decide⟩
    | text hw => exact hw.begins
  read_eq_ok_iff {s rest v} := by
    constructor
    · intro h
      unfold optionalText at h
      dsimp only at h
      split at h
      · next r hs =>
        obtain ⟨b, hb, hs'⟩ := exists_blank_append_skipBlanks s
        obtain ⟨r', hr, hv⟩ := map_eq_ok_iff.1 h
        rw [Prod.mk.injEq] at hv
        obtain ⟨rfl, rfl⟩ := hv
        rw [spell_eq_ok_iff] at hr
        exact ⟨b, ['n', 'u', 'l', 'l'], by rw [hs', hs, hr]; rfl, hb, .null⟩
      · obtain ⟨b, w, hs, hb, t, hw, rfl⟩ := (meets_text.map some).read_eq_ok_iff.1 h
        exact ⟨b, w, hs, hb, .text hw⟩
    · rintro ⟨b, w, rfl, hb, hw⟩
      unfold optionalText
      dsimp only
      cases hw with
      | null =>
        have hn : Begins ['n', 'u', 'l', 'l'] := ⟨'n', _, rfl, by decide, by decide⟩
        rw [hn.skipBlanks_append hb]
        exact map_eq_ok_iff.2 ⟨rest, spell_eq_ok_iff.2 rfl, rfl⟩
      | @text _ t hw =>
        have hr : (text.map some).read (b ++ (w ++ rest)) = .ok (some t, rest) :=
          (meets_text.map some).read_eq_ok_iff.2 ⟨b, w, rfl, hb, t, hw, rfl⟩
        rw [hw.begins.skipBlanks_append hb, hr]
        obtain ⟨v, rfl, -⟩ := id hw
        -- A text does not begin like the word, so the reader of texts is asked.
        rfl

end Reader

end TreeDrawing.Json
