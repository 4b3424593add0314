import TreeDrawing.Json.Scalar
import TreeDrawing.Json.Skip

/-!
# Lists in a document

A list is written between square brackets, its items separated by commas. There is no comma behind
the last item.

Lists may be nested, but not without bound, and so the reader of a list is told whether there is
room for one more level: without room there is no reader for the items, and the opening bracket is
refused.
-/

namespace TreeDrawing.Json

/-- Reads on inside a list: up to the first item or, behind an item, up to the next one, or past
the closing bracket. -/
def readItem (first : Bool) (s : List Char) : Except Fault Following :=
  match skipBlanks s with
  | [] => .error (.ended (.enclosed .list))
  | ']' :: rest => .ok (.closed rest)
  | c :: rest =>
    if first then .ok (.entry (c :: rest))
    else if c = ',' then
      match skipBlanks rest with
      | [] => .error (.ended .value)
      | ']' :: rest => .error (.past .trailingComma (']' :: rest))
      | rest => .ok (.entry rest)
    else .error (.past (.expectedSeparator .list) (c :: rest))

theorem readItem_length_le {first : Bool} {s : List Char} {f : Following}
    (h : readItem first s = .ok f) : f.rest.length ≤ s.length := by
  have hs := skipBlanks_length_le s
  unfold readItem at h
  split at h
  · simp at h
  · next heq =>
    cases h
    exact Nat.le_of_lt (length_lt_of_skipBlanks heq)
  · next c rest _ heq =>
    rw [heq] at hs
    split at h
    · cases h
      exact hs
    · split at h
      · split at h
        · simp at h
        · simp at h
        · cases h
          have := skipBlanks_length_le rest
          simp only [Following.rest, List.length_cons] at *
          omega
      · simp at h

theorem readItem_closed_length_lt {first : Bool} {s rest : List Char}
    (h : readItem first s = .ok (.closed rest)) : rest.length < s.length := by
  unfold readItem at h
  split at h
  · simp at h
  · next heq =>
    cases h
    exact length_lt_of_skipBlanks heq
  · split at h
    · simp at h
    · split at h
      · split at h <;> simp at h
      · simp at h

/-- Reads the items of a list up to its closing bracket; `out` holds those already read, newest
first. -/
def readItems {α : Type} (item : Reader α) (out : List α) (first : Bool) (s : List Char) :
    Except Fault (List α × List Char) :=
  match _h : readItem first s with
  | .error f => .error f
  | .ok (.closed rest) => .ok (out.reverse, rest)
  | .ok (.entry rest) =>
    match _h' : item.read rest with
    | .error f => .error f
    | .ok (a, rest) => readItems item (a :: out) false rest
termination_by s.length
decreasing_by exact Nat.lt_of_lt_of_le (item.shortens _h') (readItem_length_le _h)

theorem readItems_length_lt {α : Type} {item : Reader α} {out as : List α} {first : Bool}
    {s rest : List Char} (h : readItems item out first s = .ok (as, rest)) :
    rest.length < s.length := by
  fun_induction readItems item out first s with
  | case1 => simp at h
  | case2 out first s r hr =>
    simp only [Except.ok.injEq, Prod.mk.injEq] at h
    exact h.2 ▸ readItem_closed_length_lt hr
  | case3 => simp at h
  | case4 out first s r hr a r' ha ih =>
    have : r.length ≤ s.length := readItem_length_le hr
    have := item.shortens ha
    have := ih h
    omega

/-- Reads a list of values of one sort. The reader of its items is missing if there is no room for
a list. -/
def Reader.list {α : Type} (item? : Option (Reader α)) : Reader (List α) where
  read s :=
    match skipBlanks s with
    | '[' :: rest =>
      match item? with
      | none => .error (.past .nestedTooDeeply ('[' :: rest))
      | some item => readItems item [] true rest
    | rest => .error (unwanted "a sequence" rest)
  shortens h := by
    split at h
    · next heq =>
      split at h
      · simp at h
      · exact Nat.lt_trans (readItems_length_lt h) (length_lt_of_skipBlanks heq)
    · simp at h

end TreeDrawing.Json
