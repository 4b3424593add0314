import TreeDrawing.Json.Numeral
import TreeDrawing.Json.Text

/-!
# Passing over a value

The value of an unknown key is of no interest, but it must be a value all the same, and it may be
nested to any depth. So it is passed over without recursion: the brackets that are open are kept in
a list, innermost first, and the text is read by one loop.

## The loop

What may come next depends on where the loop stands:

* before a *value*, which must come;
* behind an *opening* bracket, where the value may come or the bracket may close;
* *between* a value and whatever follows it, which is nothing at all if no bracket is open.

A bracket that closes completes a value, so the loop then stands between again.
-/

namespace TreeDrawing.Json

/-- Where the loop stands. -/
inductive Stand where
  | value
  | opening
  | between
  deriving DecidableEq

/-- Reads the key of an object's entry and its colon, or nothing in a list. -/
def skipKey (b : Bracket) (s : List Char) : Except Fault (List Char) :=
  match b with
  | .list => .ok s
  | .object =>
    match skipBlanks s with
    | [] => .error (.ended (.enclosed .object))
    | '"' :: rest => do colon (← skipText rest)
    | rest => .error (.past .keyNotText rest)

/-- The character that closes a bracket. -/
def Bracket.close : Bracket → Char
  | .list => ']'
  | .object => '\x7d'

/-- How a value begins: with a bracket, or as a scalar that is passed over at once. -/
inductive Beginning where
  | bracket (b : Bracket) (rest : List Char)
  | scalar (rest : List Char)

/-- What is left behind the beginning. -/
def Beginning.rest : Beginning → List Char
  | bracket _ rest => rest
  | scalar rest => rest

/-- Reads an opening bracket or a whole scalar. -/
def readBeginning (s : List Char) : Except Fault Beginning :=
  match skipBlanks s with
  | [] => .error (.ended .value)
  | '[' :: rest => .ok (.bracket .list rest)
  | '\x7b' :: rest => .ok (.bracket .object rest)
  | 'n' :: rest => (spell ['u', 'l', 'l'] rest).map .scalar
  | 't' :: rest => (spell ['r', 'u', 'e'] rest).map .scalar
  | 'f' :: rest => (spell ['a', 'l', 's', 'e'] rest).map .scalar
  | '"' :: rest => (skipText rest).map .scalar
  | c :: rest =>
    if c = '-' ∨ c.isDigit then (skipNumber (c :: rest)).map .scalar
    else .error (.past .expectedValue (c :: rest))

theorem skipKey_length_le {b : Bracket} {s rest : List Char} (h : skipKey b s = .ok rest) :
    rest.length ≤ s.length := by
  unfold skipKey at h
  split at h
  · simp_all
  · split at h
    · simp at h
    · next heq =>
      obtain ⟨s₁, h₁, h⟩ := bind_eq_ok_iff.1 h
      have := length_lt_of_skipBlanks heq
      have := skipText_length_lt h₁
      have := colon_length_lt h
      omega
    · simp at h

theorem readBeginning_length_lt {s : List Char} {v : Beginning} (h : readBeginning s = .ok v) :
    v.rest.length < s.length := by
  unfold readBeginning at h
  split at h
  · simp at h
  · next heq => cases h; exact length_lt_of_skipBlanks heq
  · next heq => cases h; exact length_lt_of_skipBlanks heq
  · next heq =>
    obtain ⟨r, h₁, rfl⟩ := map_eq_ok_iff.1 h
    exact Nat.lt_of_le_of_lt (spell_length_le h₁) (length_lt_of_skipBlanks heq)
  · next heq =>
    obtain ⟨r, h₁, rfl⟩ := map_eq_ok_iff.1 h
    exact Nat.lt_of_le_of_lt (spell_length_le h₁) (length_lt_of_skipBlanks heq)
  · next heq =>
    obtain ⟨r, h₁, rfl⟩ := map_eq_ok_iff.1 h
    exact Nat.lt_of_le_of_lt (spell_length_le h₁) (length_lt_of_skipBlanks heq)
  · next heq =>
    obtain ⟨r, h₁, rfl⟩ := map_eq_ok_iff.1 h
    exact Nat.lt_trans (skipText_length_lt h₁) (length_lt_of_skipBlanks heq)
  · next heq =>
    split at h
    · obtain ⟨r, h₁, rfl⟩ := map_eq_ok_iff.1 h
      have := skipNumber_length_lt h₁
      have := length_lt_of_skipBlanks heq
      simp only [Beginning.rest, List.length_cons] at *
      omega
    · simp at h

/-- What follows inside a bracket: its end, or another entry. -/
inductive Following where
  | closed (rest : List Char)
  | entry (rest : List Char)

/-- What is left behind the closing bracket, or in front of the next value. -/
def Following.rest : Following → List Char
  | closed rest => rest
  | entry rest => rest

/-- Reads on behind an opening bracket: up to the first value, or past the closing bracket. -/
def readOpened (b : Bracket) (s : List Char) : Except Fault Following :=
  match skipBlanks s with
  | [] => .error (.ended (.enclosed b))
  | c :: rest =>
    if c = b.close then .ok (.closed rest) else (skipKey b (c :: rest)).map .entry

/-- Reads on behind a value: up to the next one, or past the closing bracket. -/
def readBetween (b : Bracket) (s : List Char) : Except Fault Following :=
  match skipBlanks s with
  | [] => .error (.ended (.enclosed b))
  | c :: rest =>
    if c = b.close then .ok (.closed rest)
    else if c = ',' then (skipKey b rest).map .entry
    else .error (.past (.expectedSeparator b) (c :: rest))

theorem readOpened_length_le {b : Bracket} {s : List Char} {f : Following}
    (h : readOpened b s = .ok f) : f.rest.length ≤ s.length := by
  unfold readOpened at h
  split at h
  · simp at h
  · next heq =>
    split at h
    · cases h
      exact Nat.le_of_lt (length_lt_of_skipBlanks heq)
    · obtain ⟨r, h₁, rfl⟩ := map_eq_ok_iff.1 h
      rw [← heq] at h₁
      exact Nat.le_trans (skipKey_length_le h₁) (skipBlanks_length_le s)

theorem readOpened_closed_length_lt {b : Bracket} {s rest : List Char}
    (h : readOpened b s = .ok (.closed rest)) : rest.length < s.length := by
  unfold readOpened at h
  split at h
  · simp at h
  · next heq =>
    split at h
    · cases h
      exact length_lt_of_skipBlanks heq
    · obtain ⟨r, -, h⟩ := map_eq_ok_iff.1 h
      simp at h

theorem readBetween_length_lt {b : Bracket} {s : List Char} {f : Following}
    (h : readBetween b s = .ok f) : f.rest.length < s.length := by
  unfold readBetween at h
  split at h
  · simp at h
  · next heq =>
    split at h
    · cases h
      exact length_lt_of_skipBlanks heq
    · split at h
      · obtain ⟨r, h₁, rfl⟩ := map_eq_ok_iff.1 h
        exact Nat.lt_of_le_of_lt (skipKey_length_le h₁) (length_lt_of_skipBlanks heq)
      · simp at h

/-- Passes over the rest of the outermost value, given the brackets open around it, innermost
first. -/
def skipFrom (stand : Stand) (opened : List Bracket) (s : List Char) :
    Except Fault (List Char) :=
  match stand, opened with
  | .value, opened =>
    match _h : readBeginning s with
    | .error f => .error f
    | .ok (.bracket b rest) => skipFrom .opening (b :: opened) rest
    | .ok (.scalar rest) => skipFrom .between opened rest
  | _, [] => .ok s
  | .opening, b :: opened =>
    match _h : readOpened b s with
    | .error f => .error f
    | .ok (.closed rest) => skipFrom .between opened rest
    | .ok (.entry rest) => skipFrom .value (b :: opened) rest
  | .between, b :: opened =>
    match _h : readBetween b s with
    | .error f => .error f
    | .ok (.closed rest) => skipFrom .between opened rest
    | .ok (.entry rest) => skipFrom .value (b :: opened) rest
termination_by (s.length, if stand = .opening then 1 else 0)
decreasing_by
  · exact Prod.Lex.left _ _ (readBeginning_length_lt _h)
  · exact Prod.Lex.left _ _ (readBeginning_length_lt _h)
  · exact Prod.Lex.left _ _ (readOpened_closed_length_lt _h)
  · have : rest.length ≤ s.length := readOpened_length_le _h
    rw [Prod.lex_def]
    simp
    omega
  · exact Prod.Lex.left _ _ (readBetween_length_lt _h)
  · exact Prod.Lex.left _ _ (readBetween_length_lt _h)

/-- Passes over one value. -/
def skipValue (s : List Char) : Except Fault (List Char) := skipFrom .value [] s

theorem skipFrom_length_le {stand : Stand} {opened : List Bracket} {s rest : List Char}
    (h : skipFrom stand opened s = .ok rest) : rest.length ≤ s.length := by
  fun_induction skipFrom stand opened s with
  | case1 => simp at h
  | case2 opened s b rest' hb ih =>
    exact Nat.le_trans (ih h) (Nat.le_of_lt (readBeginning_length_lt hb))
  | case3 opened s rest' hb ih =>
    exact Nat.le_trans (ih h) (Nat.le_of_lt (readBeginning_length_lt hb))
  | case4 => simp_all
  | case5 => simp at h
  | case6 s b opened rest' hb ih =>
    exact Nat.le_trans (ih h) (Nat.le_of_lt (readOpened_closed_length_lt hb))
  | case7 s b opened rest' hb ih =>
    exact Nat.le_trans (ih h) (readOpened_length_le hb)
  | case8 => simp at h
  | case9 s b opened rest' hb ih =>
    exact Nat.le_trans (ih h) (Nat.le_of_lt (readBetween_length_lt hb))
  | case10 s b opened rest' hb ih =>
    exact Nat.le_trans (ih h) (Nat.le_of_lt (readBetween_length_lt hb))

theorem skipValue_length_lt {s rest : List Char} (h : skipValue s = .ok rest) :
    rest.length < s.length := by
  rw [skipValue, skipFrom] at h
  split at h
  · simp at h
  · next hb => exact Nat.lt_of_le_of_lt (skipFrom_length_le h) (readBeginning_length_lt hb)
  · next hb => exact Nat.lt_of_le_of_lt (skipFrom_length_le h) (readBeginning_length_lt hb)

end TreeDrawing.Json
