import TreeDrawing.Proofs.Json.Grammar

/-!
# Texts are read as the grammar says

Every function that reads a text or a part of one succeeds exactly if the text in front of it
begins with a piece of the corresponding language. What stands behind the piece does not matter,
since a text ends with its closing quote.

The two ways of reading a text share the escapes. They differ in one point, surrogates, and there
the grammar has two languages, `TextTail` and `LooseTail`.
-/

namespace TreeDrawing.Json

/-! ## Hexadecimal digits -/

theorem toNat_lt_of_hexValue? {c : Char} {n : Nat} (h : hexValue? c = some n) : c.toNat < 128 := by
  have hle : ∀ {a b : Char}, a ≤ b → a.toNat ≤ b.toNat := fun h ↦ h
  unfold hexValue? at h
  split at h
  · next hc => exact Nat.lt_of_le_of_lt (hle hc.2) (by decide)
  · split at h
    · next hc => exact Nat.lt_of_le_of_lt (hle hc.2) (by decide)
    · split at h
      · next hc => exact Nat.lt_of_le_of_lt (hle hc.2) (by decide)
      · simp at h

theorem hexValue?_eq_some_iff {c : Char} {n : Nat} : hexValue? c = some n ↔ HexDigit c n := by
  constructor
  · intro h
    have hc := toNat_lt_of_hexValue? h
    rw [← Char.ofNat_toNat c] at h ⊢
    generalize c.toNat = m at hc h ⊢
    -- Only finitely many characters can be digits, and they can be gone through by number.
    have hm : ∀ m < 128, ∀ n ∈ hexValue? (Char.ofNat m), HexDigit (Char.ofNat m) n := by
      unfold HexDigit
      decide
    exact hm m hc n h
  · rintro ⟨hn, rfl | rfl⟩
    · revert n
      decide
    · revert n
      decide


/-! ## Escapes -/

theorem readUnit_eq_ok_iff {s rest : List Char} {u : Nat} :
    readUnit s = .ok (u, rest) ↔ ∃ w, s = w ++ rest ∧ UnitText w u := by
  constructor
  · intro h
    unfold readUnit at h
    split at h
    · next a b c d r =>
      split at h
      · next x y z t ha hb hc hd =>
        rw [hexValue?_eq_some_iff] at ha hb hc hd
        obtain ⟨hu, rfl⟩ := ok_inj h
        have hw := UnitText.digits ha hb hc hd
        rw [show 0x1000 * x + 0x100 * y + 0x10 * z + t = u by omega] at hw
        exact ⟨[a, b, c, d], rfl, hw⟩
      · simp at h
    · simp at h
  · rintro ⟨_, rfl, @⟨a, b, c, d, x, y, z, t, ha, hb, hc, hd⟩⟩
    rw [← hexValue?_eq_some_iff] at ha hb hc hd
    simp only [List.cons_append, List.nil_append, readUnit, ha, hb, hc, hd]
    rw [show ((x * 16 + y) * 16 + z) * 16 + t = 0x1000 * x + 0x100 * y + 0x10 * z + t by omega]

theorem isFirstHalf_iff {u : Nat} : isFirstHalf u = true ↔ ∃ i < 0x400, u = 0xD800 + i := by
  rw [isFirstHalf, Bool.and_eq_true, decide_eq_true_eq, decide_eq_true_eq]
  constructor
  · rintro ⟨h₁, h₂⟩
    exact ⟨u - 0xD800, by omega, by omega⟩
  · rintro ⟨i, hi, rfl⟩
    omega

theorem isSecondHalf_iff {u : Nat} : isSecondHalf u = true ↔ ∃ i < 0x400, u = 0xDC00 + i := by
  rw [isSecondHalf, Bool.and_eq_true, decide_eq_true_eq, decide_eq_true_eq]
  constructor
  · rintro ⟨h₁, h₂⟩
    exact ⟨u - 0xDC00, by omega, by omega⟩
  · rintro ⟨i, hi, rfl⟩
    omega

theorem readSign_eq_ok_iff {sign : Char} {s rest : List Char} :
    readSign sign s = .ok rest ↔ s = sign :: rest := by
  unfold readSign
  split
  · simp
  · next c r =>
    by_cases hc : c = sign
    · simp [hc]
    · simp [hc]

theorem ofPair_add (i j : Nat) :
    ofPair (0xD800 + i) (0xDC00 + j) = Char.ofNat (0x10000 + i * 0x400 + j) := by
  rw [ofPair, Nat.add_sub_cancel_left, Nat.add_sub_cancel_left]

theorem readSecondHalf_eq_ok_iff {i : Nat} {s rest : List Char} {c : Char} :
    readSecondHalf (0xD800 + i) s = .ok (c, rest) ↔
      ∃ v j, s = '\\' :: 'u' :: (v ++ rest) ∧ UnitText v (0xDC00 + j) ∧ j < 0x400 ∧
        c = Char.ofNat (0x10000 + i * 0x400 + j) := by
  constructor
  · intro h
    obtain ⟨s₁, h₁, hs₁⟩ := bind_eq_ok_iff.1 h
    obtain ⟨s₂, h₂, hs₂⟩ := bind_eq_ok_iff.1 hs₁
    obtain ⟨⟨u, s₃⟩, h₃, hs₃⟩ := bind_eq_ok_iff.1 hs₂
    obtain ⟨v, hs, hv⟩ := readUnit_eq_ok_iff.1 h₃
    rw [readSign_eq_ok_iff] at h₁ h₂
    dsimp only at hs₃
    split at hs₃
    · next hu =>
      obtain ⟨j, hj, rfl⟩ := isSecondHalf_iff.1 hu
      rw [Except.ok.injEq, Prod.mk.injEq, ofPair_add] at hs₃
      obtain ⟨rfl, rfl⟩ := hs₃
      exact ⟨v, j, by rw [h₁, h₂, hs], hv, hj, rfl⟩
    · simp at hs₃
  · rintro ⟨v, j, rfl, hv, hj, rfl⟩
    refine bind_eq_ok_iff.2 ⟨_, readSign_eq_ok_iff.2 rfl, ?_⟩
    refine bind_eq_ok_iff.2 ⟨_, readSign_eq_ok_iff.2 rfl, ?_⟩
    refine bind_eq_ok_iff.2 ⟨_, readUnit_eq_ok_iff.2 ⟨v, rfl, hv⟩, ?_⟩
    dsimp only
    rw [if_pos (isSecondHalf_iff.2 ⟨j, hj, rfl⟩), ofPair_add]

theorem readNumbered_eq_ok_iff {s rest : List Char} {c : Char} :
    readNumbered s = .ok (c, rest) ↔ ∃ w, s = w ++ rest ∧ CharText ('\\' :: 'u' :: w) c := by
  constructor
  · intro h
    obtain ⟨⟨u, s₁⟩, h₁, h₂⟩ := bind_eq_ok_iff.1 h
    obtain ⟨w, rfl, hw⟩ := readUnit_eq_ok_iff.1 h₁
    dsimp only at h₂
    split at h₂
    · simp at h₂
    · next hs =>
      split at h₂
      · next hf =>
        obtain ⟨i, hi, rfl⟩ := isFirstHalf_iff.1 hf
        obtain ⟨v, j, rfl, hv, hj, rfl⟩ := readSecondHalf_eq_ok_iff.1 h₂
        exact ⟨w ++ '\\' :: 'u' :: v, by simp, .pair hw hi hv hj⟩
      · next hf =>
        obtain ⟨rfl, rfl⟩ := ok_inj h₂
        refine ⟨w, rfl, .number hw ?_⟩
        simp only [isFirstHalf, isSecondHalf, Bool.and_eq_true, decide_eq_true_eq] at hf hs
        omega
  · rintro ⟨w, rfl, hw⟩
    cases hw with
    | letter h => simp [letters] at h
    | @number _ u hw hu =>
      refine bind_eq_ok_iff.2 ⟨_, readUnit_eq_ok_iff.2 ⟨_, rfl, hw⟩, ?_⟩
      dsimp only
      rw [if_neg, if_neg]
      · rw [isFirstHalf_iff]
        omega
      · rw [isSecondHalf_iff]
        omega
    | @pair w v i j hw hi hv hj =>
      refine bind_eq_ok_iff.2 ⟨_, readUnit_eq_ok_iff.2 ⟨w, List.append_assoc .., hw⟩, ?_⟩
      dsimp only
      rw [if_neg, if_pos (isFirstHalf_iff.2 ⟨i, hi, rfl⟩)]
      · exact readSecondHalf_eq_ok_iff.2 ⟨v, j, rfl, hv, hj, rfl⟩
      · rw [isSecondHalf_iff]
        omega

theorem ofLetter?_eq_some_iff {l c : Char} : ofLetter? l = some c ↔ (l, c) ∈ letters := by
  unfold ofLetter? letters
  split <;> simp_all [eq_comm]

theorem readEscape_eq_ok_iff {s rest : List Char} {c : Char} :
    readEscape s = .ok (c, rest) ↔ ∃ w, s = w ++ rest ∧ CharText ('\\' :: w) c := by
  constructor
  · intro h
    unfold readEscape at h
    split at h
    · simp at h
    · next l r =>
      split at h
      · next hl =>
        obtain ⟨w, rfl, hw⟩ := readNumbered_eq_ok_iff.1 h
        exact ⟨'u' :: w, by rw [hl, List.cons_append], hw⟩
      · split at h
        · next d hd =>
          obtain ⟨rfl, rfl⟩ := ok_inj h
          exact ⟨[l], rfl, .letter (ofLetter?_eq_some_iff.1 hd)⟩
        · simp at h
  · rintro ⟨w, rfl, hw⟩
    -- Which escape it is shows in the letter behind the backslash.
    cases hw with
    | plain _ hb => exact absurd rfl hb
    | @letter l _ h =>
      have hl : l ≠ 'u' := by
        rintro rfl
        simp [letters] at h
      rw [List.cons_append, List.nil_append, readEscape, if_neg hl, ofLetter?_eq_some_iff.2 h]
    | number hw hu =>
      rw [List.cons_append, readEscape, if_pos rfl]
      exact readNumbered_eq_ok_iff.2 ⟨_, rfl, .number hw hu⟩
    | pair hw hi hv hj =>
      rw [List.cons_append, readEscape, if_pos rfl]
      exact readNumbered_eq_ok_iff.2 ⟨_, rfl, .pair hw hi hv hj⟩


theorem skipEscape_eq_ok_iff {s rest : List Char} :
    skipEscape s = .ok rest ↔ (∃ l c, s = l :: rest ∧ (l, c) ∈ letters) ∨
      ∃ w u, s = 'u' :: (w ++ rest) ∧ UnitText w u := by
  constructor
  · intro h
    unfold skipEscape at h
    split at h
    · simp at h
    · next l r =>
      split at h
      · next hl =>
        obtain ⟨⟨u, s₁⟩, h₁, rfl⟩ := map_eq_ok_iff.1 h
        obtain ⟨w, rfl, hw⟩ := readUnit_eq_ok_iff.1 h₁
        exact .inr ⟨w, u, by rw [hl], hw⟩
      · split at h
        · next hd =>
          obtain ⟨c, hc⟩ := Option.isSome_iff_exists.1 hd
          rw [Except.ok.injEq] at h
          exact .inl ⟨l, c, by rw [h], ofLetter?_eq_some_iff.1 hc⟩
        · simp at h
  · rintro (⟨l, c, rfl, hc⟩ | ⟨w, u, rfl, hw⟩)
    · have hl : l ≠ 'u' := by
        rintro rfl
        simp [letters] at hc
      rw [skipEscape, if_neg hl, ofLetter?_eq_some_iff.2 hc, if_pos Option.isSome_some]
    · rw [skipEscape, if_pos rfl]
      exact map_eq_ok_iff.2 ⟨_, readUnit_eq_ok_iff.2 ⟨w, rfl, hw⟩, rfl⟩

/-! ## Whole texts -/

theorem not_isControl_iff {c : Char} : ¬ isControl c = true ↔ 0x20 ≤ c.toNat := by
  rw [isControl, decide_eq_true_eq, Nat.not_lt]

/-- Every character of a text is either written as itself or behind a backslash. -/
theorem CharText.cases_backslash {w : List Char} {c : Char} (h : CharText w c) :
    (w = [c] ∧ c ≠ '"' ∧ c ≠ '\\' ∧ ¬ isControl c = true) ∨ ∃ v, w = '\\' :: v := by
  cases h with
  | plain hq hb hc => exact .inl ⟨rfl, hq, hb, not_isControl_iff.2 hc⟩
  | letter h => exact .inr ⟨_, rfl⟩
  | number hw hu => exact .inr ⟨_, rfl⟩
  | pair hw hi hv hj => exact .inr ⟨_, rfl⟩

theorem readText_append {w : List Char} {c : Char} (h : CharText w c) (out : String)
    (s : List Char) : readText out (w ++ s) = readText (out.push c) s := by
  obtain ⟨rfl, hq, hb, hc⟩ | ⟨v, rfl⟩ := h.cases_backslash
  · rw [List.singleton_append, readText, if_neg hq, if_neg hb, if_neg hc]
  · have he : readEscape (v ++ s) = .ok (c, s) := readEscape_eq_ok_iff.2 ⟨v, rfl, h⟩
    rw [List.cons_append, readText, if_neg (by decide), if_pos rfl]
    split
    · next hf => simp [he] at hf
    · next hd =>
      rw [he, Except.ok.injEq, Prod.mk.injEq] at hd
      rw [hd.1, hd.2]

theorem readText_eq_ok_iff {out t : String} {s rest : List Char} :
    readText out s = .ok (t, rest) ↔
      ∃ w cs, s = w ++ rest ∧ TextTail w cs ∧ t = out ++ String.ofList cs := by
  constructor
  · intro h
    fun_induction readText out s with
    | case1 => simp at h
    | case2 out r =>
      obtain ⟨rfl, rfl⟩ := ok_inj h
      exact ⟨['"'], [], rfl, .close, by simp⟩
    | case3 => simp at h
    | case4 out r d r' he _ ih =>
      obtain ⟨w, rfl, hw⟩ := readEscape_eq_ok_iff.1 he
      obtain ⟨v, cs, rfl, hv, rfl⟩ := ih h
      exact ⟨('\\' :: w) ++ v, d :: cs, by simp, .char hw hv, by simp [← String.toList_inj]⟩
    | case5 => simp at h
    | case6 out c r hq hb hc ih =>
      obtain ⟨v, cs, rfl, hv, rfl⟩ := ih h
      have hw := CharText.plain hq hb (not_isControl_iff.1 hc)
      exact ⟨[c] ++ v, c :: cs, by simp, .char hw hv, by simp [← String.toList_inj]⟩
  · rintro ⟨w, cs, rfl, hw, rfl⟩
    induction hw generalizing out with
    | close =>
      rw [List.singleton_append, readText, if_pos rfl]
      simp
    | @char w v c cs hw hv ih =>
      rw [List.append_assoc, readText_append hw, ih]
      simp [← String.toList_inj]

theorem readText_nil_eq_ok_iff {t : String} {s rest : List Char} :
    readText "" s = .ok (t, rest) ↔ ∃ w, s = w ++ rest ∧ TextLiteral ('"' :: w) t := by
  rw [readText_eq_ok_iff]
  constructor
  · rintro ⟨w, cs, rfl, hw, rfl⟩
    refine ⟨w, rfl, w, rfl, ?_⟩
    rwa [String.empty_append, String.toList_ofList]
  · rintro ⟨w, rfl, v, hv, hw⟩
    rw [List.cons.injEq] at hv
    obtain ⟨-, rfl⟩ := hv
    exact ⟨w, t.toList, rfl, hw, by rw [String.empty_append, String.ofList_toList]⟩

theorem skipText_escape {s rest : List Char} (h : skipEscape s = .ok rest) :
    skipText ('\\' :: s) = skipText rest := by
  rw [skipText, if_neg (by decide), if_pos rfl]
  split
  · next hf => simp [h] at hf
  · next hd =>
    rw [h, Except.ok.injEq] at hd
    rw [hd]

theorem skipText_number {w : List Char} {u : Nat} (h : UnitText w u) (s : List Char) :
    skipText ('\\' :: 'u' :: (w ++ s)) = skipText s :=
  skipText_escape (skipEscape_eq_ok_iff.2 (.inr ⟨w, u, rfl, h⟩))

theorem skipText_append {w : List Char} {c : Char} (h : CharText w c) (s : List Char) :
    skipText (w ++ s) = skipText s := by
  cases h with
  | plain hq hb hc =>
    rw [List.singleton_append, skipText, if_neg hq, if_neg hb, if_neg (not_isControl_iff.2 hc)]
  | letter h => exact skipText_escape (skipEscape_eq_ok_iff.2 (.inl ⟨_, _, rfl, h⟩))
  | number hw hu => exact skipText_number hw s
  | pair hw hi hv hj =>
    -- The two halves are passed over one after the other.
    rw [List.cons_append, List.cons_append, List.append_assoc, skipText_number hw]
    exact skipText_number hv s

theorem skipText_eq_ok_iff {s rest : List Char} :
    skipText s = .ok rest ↔ ∃ w, s = w ++ rest ∧ LooseTail w := by
  constructor
  · intro h
    fun_induction skipText s with
    | case1 => simp at h
    | case2 r =>
      rw [Except.ok.injEq] at h
      exact ⟨['"'], by rw [h, List.singleton_append], .close⟩
    | case3 => simp at h
    | case4 r r' he _ ih =>
      obtain ⟨v, rfl, hv⟩ := ih h
      obtain ⟨l, c, rfl, hc⟩ | ⟨w, u, rfl, hw⟩ := skipEscape_eq_ok_iff.1 he
      · exact ⟨['\\', l] ++ v, rfl, .char (.letter hc) hv⟩
      · exact ⟨'\\' :: 'u' :: (w ++ v), by simp, .number hw hv⟩
    | case5 => simp at h
    | case6 c r hq hb hc ih =>
      obtain ⟨v, rfl, hv⟩ := ih h
      exact ⟨[c] ++ v, rfl, .char (.plain hq hb (not_isControl_iff.1 hc)) hv⟩
  · rintro ⟨w, rfl, hw⟩
    induction hw with
    | close => rw [List.singleton_append, skipText, if_pos rfl]
    | char hw hv ih => rw [List.append_assoc, skipText_append hw, ih]
    | number hw hv ih =>
      rw [List.cons_append, List.cons_append, List.append_assoc, skipText_number hw, ih]

end TreeDrawing.Json
