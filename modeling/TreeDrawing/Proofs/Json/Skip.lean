import TreeDrawing.Proofs.Json.Numeral
import TreeDrawing.Proofs.Json.Reader

/-!
# Values are passed over as the grammar says

The loop that passes over a value knows of the value only the brackets that are still open, while
the grammar describes a value from the outside in. What connects the two is the text that the open
brackets still *demand*: for each of them, from the innermost one outwards, the rest of its entries
and its end. Whatever the loop passes over is a text that was demanded where it started.

Conversely the loop gets past any value there is, and stands behind it with the same brackets open
as before. Since a value may end with a number, this needs a text behind it that does not continue
one; inside brackets that is always so.
-/

namespace TreeDrawing.Json

/-! ## One step of the loop -/

section Steps

variable {b : Bracket} {bs : List Bracket} {s rest : List Char}

theorem skipFrom_of_bracket (h : readBeginning s = .ok (.bracket b rest)) :
    skipFrom .value bs s = skipFrom .opening (b :: bs) rest := by
  rw [skipFrom]
  split <;> simp_all

theorem skipFrom_of_scalar (h : readBeginning s = .ok (.scalar rest)) :
    skipFrom .value bs s = skipFrom .between bs rest := by
  rw [skipFrom]
  split <;> simp_all

theorem skipFrom_between_nil : skipFrom .between [] s = .ok s := by
  rw [skipFrom]
  simp

theorem skipFrom_opening_of_closed (h : readOpened b s = .ok (.closed rest)) :
    skipFrom .opening (b :: bs) s = skipFrom .between bs rest := by
  rw [skipFrom]
  split <;> simp_all

theorem skipFrom_opening_of_entry (h : readOpened b s = .ok (.entry rest)) :
    skipFrom .opening (b :: bs) s = skipFrom .value (b :: bs) rest := by
  conv_lhs => rw [skipFrom]
  split <;> simp_all

theorem skipFrom_between_of_closed (h : readBetween b s = .ok (.closed rest)) :
    skipFrom .between (b :: bs) s = skipFrom .between bs rest := by
  rw [skipFrom]
  split <;> simp_all

theorem skipFrom_between_of_entry (h : readBetween b s = .ok (.entry rest)) :
    skipFrom .between (b :: bs) s = skipFrom .value (b :: bs) rest := by
  conv_lhs => rw [skipFrom]
  split <;> simp_all

end Steps

/-! ## Keys and brackets -/

theorem isBlank_close (b : Bracket) : isBlank b.close = false := by
  cases b <;> decide

theorem skipKey_eq_ok_iff {b : Bracket} {s rest : List Char} :
    skipKey b s = .ok rest ↔ ∃ k, s = k ++ rest ∧ LooseKey b k := by
  cases b with
  | list => simp [skipKey, LooseKey]
  | object =>
    constructor
    · intro h
      unfold skipKey at h
      dsimp only at h
      split at h
      · simp at h
      · next r hs =>
        obtain ⟨g, hg, hs'⟩ := exists_blank_append_skipBlanks s
        obtain ⟨r', h₁, h₂⟩ := bind_eq_ok_iff.1 h
        obtain ⟨k, rfl, hk⟩ := skipText_eq_ok_iff.1 h₁
        obtain ⟨c, rfl, hc⟩ := colon_eq_ok_iff.1 h₂
        refine ⟨g ++ '"' :: (k ++ c), ?_, g, k, c, hg, hk, hc, rfl⟩
        rw [hs', hs]
        simp only [List.append_assoc, List.cons_append]
      · simp at h
    · rintro ⟨_, rfl, g, k, c, hg, hk, hc, rfl⟩
      have hs : skipBlanks (g ++ '"' :: (k ++ c) ++ rest) = '"' :: (k ++ (c ++ rest)) := by
        rw [List.append_assoc, skipBlanks_append hg, List.cons_append,
          skipBlanks_cons (by decide), List.append_assoc]
      unfold skipKey
      dsimp only
      rw [hs]
      exact bind_eq_ok_iff.2 ⟨_, skipText_eq_ok_iff.2 ⟨k, rfl, hk⟩, colon_eq_ok_iff.2 ⟨c, rfl, hc⟩⟩

theorem readOpened_closed_iff {b : Bracket} {s rest : List Char} :
    readOpened b s = .ok (.closed rest) ↔ ∃ w, s = w ++ rest ∧ Sign b.close w := by
  rw [← skipBlanks_eq_cons_iff (isBlank_close b)]
  unfold readOpened
  split
  · next h => simp [h]
  · next c r h =>
    by_cases hc : c = b.close
    · simp [hc, h]
    · simp [hc, h, map_eq_ok_iff]

theorem readBetween_closed_iff {b : Bracket} {s rest : List Char} :
    readBetween b s = .ok (.closed rest) ↔ ∃ w, s = w ++ rest ∧ Sign b.close w := by
  rw [← skipBlanks_eq_cons_iff (isBlank_close b)]
  unfold readBetween
  split
  · next h => simp [h]
  · next c r h =>
    by_cases hc : c = b.close
    · simp [hc, h]
    · by_cases hc' : c = ','
      · rw [if_neg hc, if_pos hc', h]
        simp [hc, map_eq_ok_iff]
      · simp [hc, hc', h]

/-! ## How values begin -/

theorem isBlank_of_isDigit {c : Char} (h : c = '-' ∨ c.isDigit = true) :
    isBlank c = false ∧ c ≠ ']' := by
  constructor
  · rw [← Bool.not_eq_true, isBlank_iff]
    intro hc
    simp only [List.mem_cons, List.not_mem_nil, or_false] at hc
    obtain rfl | rfl | rfl | rfl := hc <;> simp at h
  · rintro rfl
    simp at h

theorem NumberText.head {w : List Char} (h : NumberText w) :
    ∃ c v, w = c :: v ∧ (c = '-' ∨ c.isDigit = true) := by
  obtain ⟨minus, whole, fraction, exponent, hminus, hwhole, -, -, rfl⟩ := h
  obtain rfl | rfl := hminus
  · obtain rfl | ⟨⟨hne, hd⟩, -⟩ := hwhole
    · exact ⟨'0', _, rfl, .inr rfl⟩
    · obtain ⟨c, v, rfl⟩ := List.exists_cons_of_ne_nil hne
      exact ⟨c, _, rfl, .inr (hd c List.mem_cons_self)⟩
  · exact ⟨'-', _, rfl, .inl rfl⟩

theorem ScalarText.begins {w : List Char} (h : ScalarText w) : Begins w := by
  cases h with
  | null => exact ⟨'n', _, rfl, by decide, by decide⟩
  | true => exact ⟨'t', _, rfl, by decide, by decide⟩
  | false => exact ⟨'f', _, rfl, by decide, by decide⟩
  | text hw => exact ⟨'"', _, rfl, by decide, by decide⟩
  | number hw =>
    obtain ⟨c, v, rfl, hc⟩ := hw.head
    obtain ⟨hb, hc'⟩ := isBlank_of_isDigit hc
    exact ⟨c, v, rfl, hb, hc'⟩

theorem ValueText.begins {w : List Char} (h : ValueText w) : Begins w := by
  cases h with
  | scalar hw => exact hw.begins
  | @enclosed b w hw =>
    refine ⟨b.opening, w, rfl, ?_, ?_⟩
    · cases b <;> decide
    · cases b <;> decide

theorem readBeginning_bracket_iff {b : Bracket} {s rest : List Char} :
    readBeginning s = .ok (.bracket b rest) ↔ skipBlanks s = b.opening :: rest := by
  constructor
  · intro h
    unfold readBeginning at h
    split at h
    · simp at h
    · next hs =>
      cases h
      exact hs
    · next hs =>
      cases h
      exact hs
    · simp [map_eq_ok_iff] at h
    · simp [map_eq_ok_iff] at h
    · simp [map_eq_ok_iff] at h
    · simp [map_eq_ok_iff] at h
    · split at h
      · simp [map_eq_ok_iff] at h
      · simp at h
  · intro h
    unfold readBeginning
    rw [h]
    cases b with
    | list => rfl
    | object => rfl

theorem map_scalar_eq_ok_iff {x : Except Fault (List Char)} {rest : List Char} :
    x.map Beginning.scalar = .ok (.scalar rest) ↔ x = .ok rest := by
  simp [map_eq_ok_iff]

theorem readBeginning_scalar_sound {s rest : List Char}
    (h : readBeginning s = .ok (.scalar rest)) :
    ∃ g w, s = g ++ (w ++ rest) ∧ Blank g ∧ ScalarText w := by
  obtain ⟨g, hg, hs⟩ := exists_blank_append_skipBlanks s
  suffices hw : ∃ w, skipBlanks s = w ++ rest ∧ ScalarText w by
    obtain ⟨w, hw, hw'⟩ := hw
    exact ⟨g, w, by rw [← hw, ← hs], hg, hw'⟩
  unfold readBeginning at h
  split at h
  · simp at h
  · simp at h
  · simp at h
  · next heq =>
    rw [map_scalar_eq_ok_iff, spell_eq_ok_iff] at h
    subst h
    exact ⟨['n', 'u', 'l', 'l'], heq, .null⟩
  · next heq =>
    rw [map_scalar_eq_ok_iff, spell_eq_ok_iff] at h
    subst h
    exact ⟨['t', 'r', 'u', 'e'], heq, .true⟩
  · next heq =>
    rw [map_scalar_eq_ok_iff, spell_eq_ok_iff] at h
    subst h
    exact ⟨['f', 'a', 'l', 's', 'e'], heq, .false⟩
  · next heq =>
    obtain ⟨w, rfl, hw⟩ := skipText_eq_ok_iff.1 (map_scalar_eq_ok_iff.1 h)
    exact ⟨'"' :: w, heq, .text hw⟩
  · next heq =>
    split at h
    · obtain ⟨⟨n, r⟩, hn, rfl⟩ := map_eq_ok_iff.1 (map_scalar_eq_ok_iff.1 h)
      obtain ⟨w, hs', hw⟩ := readNumeral_sound hn
      exact ⟨w, heq.trans hs', .number hw⟩
    · simp at h

/-- No other sort of value begins as a number does. -/
theorem readBeginning_of_number {s rest : List Char} {c : Char} (hs : skipBlanks s = c :: rest)
    (hc : c = '-' ∨ c.isDigit = true) :
    readBeginning s = (skipNumber (c :: rest)).map .scalar := by
  unfold readBeginning
  rw [hs]
  split
  case h_8 heq =>
    obtain ⟨rfl, rfl⟩ := List.cons.inj heq
    exact if_pos hc
  all_goals simp_all

theorem readBeginning_append {g w s : List Char} (hg : Blank g) (hw : ScalarText w)
    (hs : EndsNumber s) : readBeginning (g ++ (w ++ s)) = .ok (.scalar s) := by
  have hskip := hw.begins.skipBlanks_append hg s
  cases hw with
  | null =>
    unfold readBeginning
    rw [hskip]
    exact map_scalar_eq_ok_iff.2 (spell_eq_ok_iff.2 rfl)
  | true =>
    unfold readBeginning
    rw [hskip]
    exact map_scalar_eq_ok_iff.2 (spell_eq_ok_iff.2 rfl)
  | false =>
    unfold readBeginning
    rw [hskip]
    exact map_scalar_eq_ok_iff.2 (spell_eq_ok_iff.2 rfl)
  | text hw =>
    unfold readBeginning
    rw [hskip]
    exact map_scalar_eq_ok_iff.2 (skipText_eq_ok_iff.2 ⟨_, rfl, hw⟩)
  | number hw =>
    obtain ⟨n, hn⟩ := readNumeral_append .invalidNumber hw hs
    obtain ⟨c, v, rfl, hc⟩ := hw.head
    rw [readBeginning_of_number hskip hc]
    exact map_scalar_eq_ok_iff.2 (map_eq_ok_iff.2 ⟨_, hn, rfl⟩)

/-! ## Entries -/

theorem Sign.endsNumber {c : Char} {w : List Char} (h : Sign c w)
    (hc : c.isDigit = false ∧ c ≠ '.' ∧ c ≠ 'e' ∧ c ≠ 'E') (s : List Char) :
    EndsNumber (w ++ s) := by
  obtain ⟨g, hg, rfl⟩ := h
  intro d hd
  cases g with
  | nil =>
    cases hd
    exact hc
  | cons b g =>
    obtain rfl : b = d := Option.some.inj hd
    have hb := hg b List.mem_cons_self
    simp only [List.mem_cons, List.not_mem_nil, or_false] at hb
    obtain rfl | rfl | rfl | rfl := hb <;> decide

theorem Bracket.close_endsNumber (b : Bracket) :
    b.close.isDigit = false ∧ b.close ≠ '.' ∧ b.close ≠ 'e' ∧ b.close ≠ 'E' := by
  cases b <;> decide

theorem ValueEntries.endsNumber {b : Bracket} {v : List Char} (h : ValueEntries b false v)
    (s : List Char) : EndsNumber (v ++ s) := by
  cases h with
  | close hw => exact hw.endsNumber (Bracket.close_endsNumber _) s
  | entry hc hk hg hw hv =>
    rw [List.append_assoc]
    exact Sign.endsNumber hc (by decide) _

/-! ## What the open brackets demand -/

/-- The rest of the entries of each open bracket, and its end, from the innermost outwards. -/
def Closing : List Bracket → List Char → Prop
  | [], w => w = []
  | b :: bs, w => ∃ v u, w = v ++ u ∧ ValueEntries b false v ∧ Closing bs u

/-- What the loop still has to pass over. -/
def Demand : Stand → List Bracket → List Char → Prop
  | .value, bs, w => ∃ g v u, w = g ++ (v ++ u) ∧ Blank g ∧ ValueText v ∧ Closing bs u
  | .opening, b :: bs, w => ∃ v u, w = v ++ u ∧ ValueEntries b true v ∧ Closing bs u
  | .opening, [], w => w = []
  | .between, bs, w => Closing bs w

theorem readOpened_entry_sound {b : Bracket} {s rest : List Char}
    (h : readOpened b s = .ok (.entry rest)) :
    ∃ k g, s = k ++ (g ++ rest) ∧ LooseKey b k ∧ Blank g := by
  unfold readOpened at h
  split at h
  · simp at h
  · next c r hs =>
    split at h
    · simp at h
    · obtain ⟨r', hk, hr⟩ := map_eq_ok_iff.1 h
      cases hr
      obtain ⟨g, hg, hs'⟩ := exists_blank_append_skipBlanks s
      obtain ⟨k, hk', hkey⟩ := skipKey_eq_ok_iff.1 hk
      rw [hs, hk'] at hs'
      -- The blanks in front belong to the key if there is one, and else to the value.
      cases b with
      | list =>
        obtain rfl : k = [] := hkey
        exact ⟨[], g, hs', rfl, hg⟩
      | object =>
        obtain ⟨g', k', c', hg', hk₁, hc', rfl⟩ := hkey
        refine ⟨g ++ (g' ++ '"' :: (k' ++ c')), [], by rw [hs']; simp, ?_, blank_nil⟩
        exact ⟨g ++ g', k', c', hg.append hg', hk₁, hc', (List.append_assoc ..).symm⟩

theorem readBetween_entry_sound {b : Bracket} {s rest : List Char}
    (h : readBetween b s = .ok (.entry rest)) :
    ∃ c k, s = c ++ (k ++ rest) ∧ Sign ',' c ∧ LooseKey b k := by
  unfold readBetween at h
  split at h
  · simp at h
  · next c r hs =>
    split at h
    · simp at h
    · split at h
      · next hc =>
        obtain ⟨r', hk, hr⟩ := map_eq_ok_iff.1 h
        cases hr
        obtain ⟨k, rfl, hkey⟩ := skipKey_eq_ok_iff.1 hk
        obtain ⟨w, rfl, hw⟩ := (skipBlanks_eq_cons_iff (by decide)).1 (hc ▸ hs)
        exact ⟨w, k, rfl, hw, hkey⟩
      · simp at h

theorem skipFrom_sound {stand : Stand} {opened : List Bracket} {s rest : List Char}
    (h : skipFrom stand opened s = .ok rest) :
    ∃ w, s = w ++ rest ∧ Demand stand opened w := by
  fun_induction skipFrom stand opened s with
  | case1 => simp at h
  | case2 s opened b r hb ih =>
    -- What the new bracket demands makes a value, behind which the others demand what they did.
    obtain ⟨_, rfl, v, u, rfl, hv, hu⟩ := ih h
    obtain ⟨g, hg, hs⟩ := exists_blank_append_skipBlanks s
    rw [readBeginning_bracket_iff.1 hb] at hs
    refine ⟨g ++ (b.opening :: v ++ u), ?_, g, b.opening :: v, u, rfl, hg, .enclosed hv, hu⟩
    rw [hs]
    simp only [List.append_assoc, List.cons_append]
  | case3 s opened r hb ih =>
    obtain ⟨u, rfl, hu⟩ := ih h
    obtain ⟨g, v, rfl, hg, hv⟩ := readBeginning_scalar_sound hb
    exact ⟨g ++ (v ++ u), by simp only [List.append_assoc], g, v, u, rfl, hg, .scalar hv, hu⟩
  | case4 stand s hs =>
    rw [Except.ok.injEq] at h
    refine ⟨[], h, ?_⟩
    cases stand with
    | value => exact absurd rfl hs
    | opening => rfl
    | between => rfl
  | case5 => simp at h
  | case6 s b opened r hb ih =>
    obtain ⟨u, rfl, hu⟩ := ih h
    obtain ⟨v, rfl, hv⟩ := readOpened_closed_iff.1 hb
    exact ⟨v ++ u, by rw [List.append_assoc], v, u, rfl, .close hv, hu⟩
  | case7 s b opened r hb ih =>
    obtain ⟨_, rfl, g', v, _, rfl, hg', hv, v', u, rfl, hv', hu⟩ := ih h
    obtain ⟨k, g, rfl, hk, hg⟩ := readOpened_entry_sound hb
    -- The value that comes next and what is demanded behind it are the entries of the bracket.
    refine ⟨([] ++ (k ++ ((g ++ g') ++ (v ++ v')))) ++ u, by simp, _, u, rfl,
      .entry rfl hk (hg.append hg') hv hv', hu⟩
  | case8 => simp at h
  | case9 s b opened r hb ih =>
    obtain ⟨u, rfl, hu⟩ := ih h
    obtain ⟨v, rfl, hv⟩ := readBetween_closed_iff.1 hb
    exact ⟨v ++ u, by rw [List.append_assoc], v, u, rfl, .close hv, hu⟩
  | case10 s b opened r hb ih =>
    obtain ⟨_, rfl, g, v, _, rfl, hg, hv, v', u, rfl, hv', hu⟩ := ih h
    obtain ⟨c, k, rfl, hc, hk⟩ := readBetween_entry_sound hb
    refine ⟨(c ++ (k ++ (g ++ (v ++ v')))) ++ u, by simp, _, u, rfl, .entry hc hk hg hv hv', hu⟩


/-! ## Getting past a value -/

/-- Where the loop stands in front of an entry, the first one or another. -/
def Stand.before : Bool → Stand
  | true => .opening
  | false => .between

theorem readOpened_append {b : Bracket} {k g w : List Char} (hk : LooseKey b k) (hg : Blank g)
    (hw : Begins w) (s : List Char) :
    ∃ g', Blank g' ∧ readOpened b (k ++ (g ++ (w ++ s))) = .ok (.entry (g' ++ (w ++ s))) := by
  cases b with
  | list =>
    obtain rfl : k = [] := hk
    refine ⟨[], blank_nil, ?_⟩
    have hs := hw.skipBlanks_append hg s
    obtain ⟨c, v, rfl, -, hc⟩ := hw
    unfold readOpened
    rw [List.nil_append, hs]
    exact if_neg hc
  | object =>
    obtain ⟨g', k', c, hg', hk', hc, rfl⟩ := hk
    refine ⟨g, hg, ?_⟩
    have hs : skipBlanks (g' ++ '"' :: (k' ++ c) ++ (g ++ (w ++ s)))
        = '"' :: (k' ++ c) ++ (g ++ (w ++ s)) := by
      rw [List.append_assoc, skipBlanks_append hg', List.cons_append, skipBlanks_cons (by decide)]
    have hkey : LooseKey .object ('"' :: (k' ++ c)) := ⟨[], k', c, blank_nil, hk', hc, rfl⟩
    unfold readOpened
    rw [hs, List.cons_append]
    dsimp only
    rw [if_neg (by decide)]
    exact map_eq_ok_iff.2 ⟨_, skipKey_eq_ok_iff.2 ⟨_, rfl, hkey⟩, rfl⟩

theorem readBetween_append {b : Bracket} {c k : List Char} (hc : Sign ',' c) (hk : LooseKey b k)
    (s : List Char) : readBetween b (c ++ (k ++ s)) = .ok (.entry s) := by
  have hs : skipBlanks (c ++ (k ++ s)) = ',' :: (k ++ s) :=
    (skipBlanks_eq_cons_iff (by decide)).2 ⟨c, rfl, hc⟩
  unfold readBetween
  rw [hs]
  dsimp only
  rw [if_neg (by cases b <;> decide), if_pos rfl]
  exact map_eq_ok_iff.2 ⟨_, skipKey_eq_ok_iff.2 ⟨k, rfl, hk⟩, rfl⟩

theorem skipFrom_close {b : Bracket} {bs : List Bracket} {w : List Char} (first : Bool)
    (hw : Sign b.close w) (s : List Char) :
    skipFrom (.before first) (b :: bs) (w ++ s) = skipFrom .between bs s := by
  cases first with
  | true => exact skipFrom_opening_of_closed (readOpened_closed_iff.2 ⟨w, rfl, hw⟩)
  | false => exact skipFrom_between_of_closed (readBetween_closed_iff.2 ⟨w, rfl, hw⟩)

theorem skipFrom_entry {b : Bracket} {first : Bool} {c k g w : List Char} (bs : List Bracket)
    (hc : Separator first c) (hk : LooseKey b k) (hg : Blank g) (hw : Begins w) (s : List Char) :
    ∃ g', Blank g' ∧ skipFrom (.before first) (b :: bs) (c ++ (k ++ (g ++ (w ++ s))))
      = skipFrom .value (b :: bs) (g' ++ (w ++ s)) := by
  cases first with
  | true =>
    obtain rfl : c = [] := hc
    obtain ⟨g', hg', h⟩ := readOpened_append hk hg hw s
    exact ⟨g', hg', skipFrom_opening_of_entry h⟩
  | false => exact ⟨g, hg, skipFrom_between_of_entry (readBetween_append hc hk _)⟩

/-- The loop gets past a value, whatever brackets are open around it. -/
def Passes (w : List Char) : Prop :=
  ∀ ⦃g s : List Char⦄ (bs : List Bracket), Blank g → EndsNumber s →
    skipFrom .value bs (g ++ (w ++ s)) = skipFrom .between bs s

/-- The loop gets past the entries of a bracket and its end. -/
def PassesEntries (b : Bracket) (first : Bool) (v : List Char) : Prop :=
  ∀ (bs : List Bracket) (s : List Char),
    skipFrom (.before first) (b :: bs) (v ++ s) = skipFrom .between bs s

theorem passes_of_scalarText {w : List Char} (hw : ScalarText w) : Passes w :=
  fun _ _ _ hg hs ↦ skipFrom_of_scalar (readBeginning_append hg hw hs)

theorem passes_enclosed {b : Bracket} {v : List Char} (hv : ValueEntries b true v)
    (h : PassesEntries b true v) : Passes (b.opening :: v) := by
  intro g s bs hg hs
  have hskip := (ValueText.enclosed hv).begins.skipBlanks_append hg s
  rw [skipFrom_of_bracket (readBeginning_bracket_iff.2 hskip)]
  exact h bs s

theorem passesEntries_close {b : Bracket} {first : Bool} {w : List Char} (hw : Sign b.close w) :
    PassesEntries b first w := fun _ s ↦ skipFrom_close first hw s

theorem passesEntries_entry {b : Bracket} {first : Bool} {c k g w v : List Char}
    (hc : Separator first c) (hk : LooseKey b k) (hg : Blank g) (hw : ValueText w)
    (hv : ValueEntries b false v) (hpw : Passes w) (hpv : PassesEntries b false v) :
    PassesEntries b first (c ++ (k ++ (g ++ (w ++ v)))) := by
  intro bs s
  obtain ⟨g', hg', h⟩ := skipFrom_entry bs hc hk hg hw.begins (v ++ s)
  simp only [List.append_assoc]
  rw [h, hpw (b :: bs) hg' (hv.endsNumber s)]
  exact hpv bs s

-- The induction is on values and entries together, so its principle is applied by hand.
theorem ValueText.passes {w : List Char} (h : ValueText w) : Passes w :=
  @ValueText.rec (fun w _ ↦ Passes w) (fun b first v _ ↦ PassesEntries b first v)
    passes_of_scalarText passes_enclosed passesEntries_close passesEntries_entry w h

theorem ValueEntries.passes {b : Bracket} {first : Bool} {v : List Char}
    (h : ValueEntries b first v) : PassesEntries b first v :=
  @ValueEntries.rec (fun w _ ↦ Passes w) (fun b first v _ ↦ PassesEntries b first v)
    passes_of_scalarText passes_enclosed passesEntries_close passesEntries_entry b first v h

/-! ## Whole values -/

theorem skipValue_sound {s rest : List Char} (h : skipValue s = .ok rest) :
    ∃ g w, s = g ++ (w ++ rest) ∧ Blank g ∧ ValueText w := by
  obtain ⟨_, rfl, g, v, u, rfl, hg, hv, hu⟩ := skipFrom_sound h
  obtain rfl : u = [] := hu
  exact ⟨g, v, by simp, hg, hv⟩

theorem skipValue_append {g w s : List Char} (hg : Blank g) (hw : ValueText w)
    (hs : EndsNumber s) : skipValue (g ++ (w ++ s)) = .ok s := by
  rw [skipValue, hw.passes [] hg hs, skipFrom_between_nil]

end TreeDrawing.Json
