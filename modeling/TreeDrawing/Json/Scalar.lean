import TreeDrawing.Json.Numeral
import TreeDrawing.Json.Text

/-!
# Texts, and what stands where a text should

The readers of texts, and the fault of a value of the wrong sort, which every reader shares. The
message of that fault shows the value that was found. A scalar is therefore read to its end before
it is refused, and if that fails, the fault found in it is the one reported. Of a list or an object
nothing is read.
-/

namespace TreeDrawing.Json

/-! ## Values of the wrong sort -/

/-- Reads enough of a value to say what it is: a scalar as a whole, of a list or an object
nothing. -/
def readFound (s : List Char) : Except Fault (Found × List Char) :=
  match s with
  | [] => .error (.ended .value)
  | 'n' :: rest => do .ok (.null, ← spell ['u', 'l', 'l'] rest)
  | 't' :: rest => do .ok (.boolean true, ← spell ['r', 'u', 'e'] rest)
  | 'f' :: rest => do .ok (.boolean false, ← spell ['a', 'l', 's', 'e'] rest)
  | '"' :: rest => do
    let (t, rest) ← readText "" rest
    .ok (.text t, rest)
  | '[' :: rest => .ok (.sequence, '[' :: rest)
  | '\x7b' :: rest => .ok (.map, '\x7b' :: rest)
  | c :: rest =>
    if c = '-' ∨ c.isDigit then readNumber (c :: rest)
    else .error (.past .expectedValue (c :: rest))

/-- The fault of a value that is not what was wanted. -/
def unwanted (wanted : String) (s : List Char) : Fault :=
  match readFound s with
  | .error f => f
  | .ok (found, rest) => .at (.mismatch found wanted) rest

/-! ## Texts -/

namespace Reader

/-- Reads a text. -/
def text : Reader String where
  read s :=
    match skipBlanks s with
    | '"' :: rest => readText "" rest
    | rest => .error (unwanted "a string" rest)
  shortens h := by
    split at h
    · next heq => exact Nat.lt_trans (readText_length_lt h) (length_lt_of_skipBlanks heq)
    · simp at h

/-- Reads a text, or the word that stands for the absence of one. -/
def optionalText : Reader (Option String) where
  read s :=
    match skipBlanks s with
    | 'n' :: rest => (spell ['u', 'l', 'l'] rest).map (none, ·)
    | _ => (text.map some).read s
  shortens h := by
    split at h
    · next heq =>
      obtain ⟨r, h₁, h₂⟩ := map_eq_ok_iff.1 h
      rw [Prod.mk.injEq] at h₂
      have := spell_length_le h₁
      have := length_lt_of_skipBlanks heq
      rw [← h₂.2]
      omega
    · exact (text.map some).shortens h

end Reader

end TreeDrawing.Json
