import TreeDrawing.Proofs.Json.Grammar

/-!
# Numbers are read as the grammar says

A number is the one piece of a document that does not show where it ends. What is read is always a
number, but the converse needs to know what comes next: `1` is a number and `12` begins with it,
but what is read from `12` is not `1`. The converse therefore holds in front of texts that do not
continue a number.
-/

namespace TreeDrawing.Json

/-- A text that does not continue a number. -/
def EndsNumber (s : List Char) : Prop :=
  ∀ c ∈ s.head?, c.isDigit = false ∧ c ≠ '.' ∧ c ≠ 'e' ∧ c ≠ 'E'

theorem EndsNumber.startsWithDigit {s : List Char} (h : EndsNumber s) :
    startsWithDigit s = false := by
  cases s with
  | nil => rfl
  | cons c s => exact (h c rfl).1

/-! ## Digits -/

theorem startsWithDigit_append {w : List Char} (h : Digits w) (s : List Char) :
    startsWithDigit (w ++ s) = true := by
  obtain ⟨hne, hw⟩ := h
  obtain ⟨c, v, rfl⟩ := List.exists_cons_of_ne_nil hne
  exact hw c List.mem_cons_self

theorem splitDigits_append {w s : List Char} (h : Digits w) (hs : startsWithDigit s = false) :
    splitDigits (w ++ s) = (w, s) := by
  have hs' : s.takeWhile Char.isDigit = [] ∧ s.dropWhile Char.isDigit = s := by
    cases s with
    | nil => exact ⟨rfl, rfl⟩
    | cons c s =>
      have hc : c.isDigit = false := hs
      simp [hc]
  rw [splitDigits, List.takeWhile_append_of_pos h.2, List.dropWhile_append_of_pos h.2, hs'.1,
    hs'.2, List.append_nil]

/-- The digits at the front of a text, and the rest. -/
theorem exists_digits_append {s : List Char} (h : startsWithDigit s = true) :
    ∃ d r, s = d ++ r ∧ Digits d ∧ splitDigits s = (d, r) := by
  cases s with
  | nil => simp [startsWithDigit] at h
  | cons c s =>
    have hc : c.isDigit = true := h
    refine ⟨_, _, List.takeWhile_append_dropWhile.symm, ⟨?_, ?_⟩, rfl⟩
    · simp [hc]
    · intro d hd
      exact List.all_eq_true.1 List.all_takeWhile d hd

/-! ## The parts of a number -/

theorem readMinus_sound (s : List Char) :
    ∃ w, s = w ++ (readMinus s).2 ∧ (w = [] ∨ w = ['-']) := by
  unfold readMinus
  split
  · exact ⟨['-'], rfl, .inr rfl⟩
  · exact ⟨[], rfl, .inl rfl⟩

theorem readMinus_append {w s : List Char} (h : w = [] ∨ w = ['-']) (hs : s.head? ≠ some '-') :
    (readMinus (w ++ s)).2 = s := by
  obtain rfl | rfl := h
  · unfold readMinus
    split
    · next heq =>
      rw [List.nil_append] at heq
      simp [heq] at hs
    · rfl
  · rfl

theorem readWhole_sound {cut : Cause} {s rest w : List Char} (h : readWhole cut s = .ok (w, rest)) :
    s = w ++ rest ∧ WholePart w := by
  unfold readWhole at h
  split at h
  · split at h
    · simp at h
    · obtain ⟨rfl, rfl⟩ := ok_inj h
      exact ⟨rfl, .inl rfl⟩
  · next hz =>
    split at h
    · next hs =>
      obtain ⟨d, r, hdr, hd, hsplit⟩ := exists_digits_append hs
      rw [hsplit] at h
      obtain ⟨rfl, rfl⟩ := ok_inj h
      refine ⟨hdr, .inr ⟨hd, ?_⟩⟩
      -- The digits start as the text does, and that is not with a zero.
      intro h0
      obtain ⟨v, rfl⟩ := List.head?_eq_some_iff.1 h0
      exact hz (v ++ r) hdr
    · simp at h

theorem readWhole_append {w s : List Char} (cut : Cause) (h : WholePart w)
    (hs : startsWithDigit s = false) : readWhole cut (w ++ s) = .ok (w, s) := by
  obtain rfl | ⟨hw, h0⟩ := h
  · rw [List.singleton_append, readWhole, if_neg (by simp [hs])]
  · unfold readWhole
    split
    · next heq =>
      obtain ⟨c, v, rfl⟩ := List.exists_cons_of_ne_nil hw.1
      rw [List.cons_append, List.cons.injEq] at heq
      simp [heq.1] at h0
    · rw [if_pos (startsWithDigit_append hw s), splitDigits_append hw hs]

theorem readFraction_sound {cut : Cause} {s rest ds : List Char}
    (h : readFraction cut s = .ok (ds, rest)) : ∃ w, s = w ++ rest ∧ FractionPart w := by
  unfold readFraction at h
  split at h
  · next r =>
    split at h
    · next hr =>
      obtain ⟨d, r', rfl, hd, hsplit⟩ := exists_digits_append hr
      rw [hsplit] at h
      obtain ⟨rfl, rfl⟩ := ok_inj h
      exact ⟨'.' :: d, rfl, .inr ⟨d, hd, rfl⟩⟩
    · simp at h
  · exact ⟨[], (ok_inj h).2, .inl rfl⟩

theorem readFraction_append {w s : List Char} (cut : Cause) (h : FractionPart w)
    (hs : startsWithDigit s = false) (hp : s.head? ≠ some '.') :
    ∃ ds, readFraction cut (w ++ s) = .ok (ds, s) := by
  obtain rfl | ⟨d, hd, rfl⟩ := h
  · refine ⟨[], ?_⟩
    unfold readFraction
    split
    · next heq =>
      rw [List.nil_append] at heq
      simp [heq] at hp
    · rfl
  · refine ⟨d, ?_⟩
    rw [List.cons_append, readFraction, if_pos (startsWithDigit_append hd s),
      splitDigits_append hd hs]

theorem readExponentSign_sound (s : List Char) :
    ∃ w, s = w ++ (readExponentSign s).2 ∧ (w = [] ∨ w = ['+'] ∨ w = ['-']) := by
  unfold readExponentSign
  split
  · exact ⟨['+'], rfl, .inr (.inl rfl)⟩
  · obtain ⟨w, hw, h⟩ := readMinus_sound s
    exact ⟨w, hw, h.imp_right .inr⟩

theorem readExponentSign_append {w s : List Char} (h : w = [] ∨ w = ['+'] ∨ w = ['-'])
    (hs : startsWithDigit s = true) : (readExponentSign (w ++ s)).2 = s := by
  -- The digit that must follow is not taken for a sign.
  have hsign : s.head? ≠ some '+' ∧ s.head? ≠ some '-' := by
    constructor
    · intro hc
      simp [startsWithDigit, hc] at hs
    · intro hc
      simp [startsWithDigit, hc] at hs
  obtain rfl | rfl | rfl := h
  · unfold readExponentSign
    split
    · next heq =>
      rw [List.nil_append] at heq
      exact absurd (by rw [heq, List.head?_cons]) hsign.1
    · exact readMinus_append (.inl rfl) hsign.2
  · rfl
  · rfl

theorem readExponent_sound {cut : Cause} {s rest : List Char} {e? : Option Exponent}
    (h : readExponent cut s = .ok (e?, rest)) : ∃ w, s = w ++ rest ∧ ExponentPart w := by
  unfold readExponent at h
  split at h
  · exact ⟨[], (ok_inj h).2, .inl rfl⟩
  · next c r =>
    split at h
    · next hc =>
      obtain ⟨sign, hr, hsign⟩ := readExponentSign_sound r
      dsimp only at h
      split at h
      · next hr' =>
        obtain ⟨d, r', hdr, hd, hsplit⟩ := exists_digits_append hr'
        rw [hsplit] at h
        obtain ⟨-, rfl⟩ := ok_inj h
        refine ⟨c :: (sign ++ d), ?_, .inr ⟨c, sign, d, hc, hsign, hd, rfl⟩⟩
        rw [hr, hdr, List.cons_append, List.append_assoc]
      · simp at h
    · exact ⟨[], (ok_inj h).2, .inl rfl⟩

theorem readExponent_append {w s : List Char} (cut : Cause) (h : ExponentPart w)
    (hs : EndsNumber s) : ∃ e?, readExponent cut (w ++ s) = .ok (e?, s) := by
  obtain rfl | ⟨e, sign, d, he, hsign, hd, rfl⟩ := h
  · refine ⟨none, ?_⟩
    cases s with
    | nil => rfl
    | cons c s =>
      obtain ⟨-, -, he, hE⟩ := hs c rfl
      rw [List.nil_append, readExponent, if_neg (by simp [he, hE])]
  · have hd' := startsWithDigit_append hd s
    refine ⟨some ⟨(readExponentSign (sign ++ (d ++ s))).1, d⟩, ?_⟩
    rw [List.cons_append, List.append_assoc, readExponent, if_pos he]
    dsimp only
    rw [readExponentSign_append hsign hd', if_pos hd', splitDigits_append hd hs.startsWithDigit]

/-! ## Whole numbers -/

theorem readNumeral_sound {cut : Cause} {s rest : List Char} {n : Numeral}
    (h : readNumeral cut s = .ok (n, rest)) : ∃ w, s = w ++ rest ∧ NumberText w := by
  obtain ⟨minus, hs, hminus⟩ := readMinus_sound s
  obtain ⟨⟨whole, s₁⟩, (h₁ : readWhole cut (readMinus s).2 = _), h⟩ := bind_eq_ok_iff.1 h
  obtain ⟨⟨ds, s₂⟩, h₂, h⟩ := bind_eq_ok_iff.1 h
  obtain ⟨⟨e?, s₃⟩, h₃, h⟩ := bind_eq_ok_iff.1 h
  obtain ⟨hs₁, hwhole⟩ := readWhole_sound h₁
  obtain ⟨fraction, hs₂, hfraction⟩ := readFraction_sound h₂
  obtain ⟨exponent, hs₃, hexponent⟩ := readExponent_sound h₃
  obtain ⟨-, rfl⟩ := ok_inj h
  refine ⟨minus ++ (whole ++ (fraction ++ exponent)), ?_,
    minus, whole, fraction, exponent, hminus, hwhole, hfraction, hexponent, rfl⟩
  rw [hs, hs₁, hs₂, hs₃]
  simp only [List.append_assoc]

/-- An exponent, and what follows it, goes on with neither a digit nor a point. -/
theorem ExponentPart.head {w s : List Char} (h : ExponentPart w) (hs : EndsNumber s) :
    startsWithDigit (w ++ s) = false ∧ (w ++ s).head? ≠ some '.' := by
  obtain rfl | ⟨e, sign, d, he, -, -, rfl⟩ := h
  · exact ⟨hs.startsWithDigit, fun hp ↦ (hs '.' hp).2.1 rfl⟩
  · obtain rfl | rfl := he
    · exact ⟨rfl, by simp⟩
    · exact ⟨rfl, by simp⟩

theorem FractionPart.startsWithDigit_append {w s : List Char} (h : FractionPart w)
    (hs : startsWithDigit s = false) : startsWithDigit (w ++ s) = false := by
  obtain rfl | ⟨d, -, rfl⟩ := h
  · exact hs
  · rfl

theorem WholePart.head?_append_ne {w : List Char} (h : WholePart w) (s : List Char) :
    (w ++ s).head? ≠ some '-' := by
  intro hm
  obtain rfl | ⟨hw, -⟩ := h
  · simp at hm
  · have hd := startsWithDigit_append hw s
    simp [startsWithDigit, hm] at hd

theorem readNumeral_append {w s : List Char} (cut : Cause) (h : NumberText w)
    (hs : EndsNumber s) : ∃ n, readNumeral cut (w ++ s) = .ok (n, s) := by
  obtain ⟨minus, whole, fraction, exponent, hminus, hwhole, hfraction, hexponent, rfl⟩ := h
  -- Each part ends where the next begins, so the last one is read first.
  obtain ⟨e?, he⟩ := readExponent_append cut hexponent hs
  obtain ⟨he₁, he₂⟩ := hexponent.head hs
  obtain ⟨ds, hds⟩ := readFraction_append cut hfraction he₁ he₂
  have hw := readWhole_append cut hwhole (hfraction.startsWithDigit_append he₁)
  have hm := readMinus_append hminus (hwhole.head?_append_ne (fraction ++ (exponent ++ s)))
  simp only [List.append_assoc]
  refine ⟨⟨(readMinus (minus ++ (whole ++ (fraction ++ (exponent ++ s))))).1, whole, ds, e?⟩, ?_⟩
  refine bind_eq_ok_iff.2 ⟨(whole, fraction ++ (exponent ++ s)), (congrArg _ hm).trans hw, ?_⟩
  refine bind_eq_ok_iff.2 ⟨(ds, exponent ++ s), hds, ?_⟩
  refine bind_eq_ok_iff.2 ⟨(e?, s), he, ?_⟩
  rfl

end TreeDrawing.Json
