import TreeDrawing.Json.Fault

/-!
# Readers

A *reader* takes one value off the front of a text and says what is left. Blanks may stand before
every value, and every value takes at least one character, so a reader that succeeds leaves less
than it was given. That law is part of the type: it is what lets lists and objects be read by
recursion on the length of the text, whatever their items are.

## Main definitions

* `Reader`: a reading function together with the law that it shortens the text.
* `Reader.document`: reads a text that holds one value and nothing else.
-/

namespace TreeDrawing.Json

/-- Takes a value off the front of a text. -/
structure Reader (α : Type) where
  read : List Char → Except Fault (α × List Char)
  /-- Every value takes at least one character. -/
  shortens : ∀ {s : List Char} {a : α} {rest : List Char},
    read s = .ok (a, rest) → rest.length < s.length

/-! ## Blanks -/

/-- The characters that may stand between the others. -/
def isBlank (c : Char) : Bool := c = ' ' || c = '\n' || c = '\t' || c = '\r'

/-- What is left after the blanks at the front. -/
def skipBlanks (s : List Char) : List Char := s.dropWhile isBlank

theorem skipBlanks_length_le (s : List Char) : (skipBlanks s).length ≤ s.length :=
  (List.dropWhile_suffix isBlank).length_le

/-- The first character after the blanks is part of the text, so what follows it is shorter. -/
theorem length_lt_of_skipBlanks {s rest : List Char} {c : Char} (h : skipBlanks s = c :: rest) :
    rest.length < s.length := by
  have := skipBlanks_length_le s
  rw [h, List.length_cons] at this
  omega

/-! ## One step after another -/

/-- Two steps succeed if the first does and the second does with what the first has given. -/
theorem bind_eq_ok_iff {α β : Type} {x : Except Fault α} {f : α → Except Fault β} {b : β} :
    x >>= f = .ok b ↔ ∃ a, x = .ok a ∧ f a = .ok b := by
  cases x with
  | error => simp [bind, Except.bind]
  | ok => simp [bind, Except.bind]

/-- A step whose outcome is only renamed succeeds as the step itself does. -/
theorem map_eq_ok_iff {α β : Type} {x : Except Fault α} {f : α → β} {b : β} :
    x.map f = .ok b ↔ ∃ a, x = .ok a ∧ f a = b := by
  cases x with
  | error => simp [Except.map]
  | ok => simp [Except.map]

/-- An outcome settles both what was read and what is left. -/
theorem ok_inj {α β : Type} {a b : α} {s t : β}
    (h : (.ok (a, s) : Except Fault (α × β)) = .ok (b, t)) : a = b ∧ s = t := by
  rwa [Except.ok.injEq, Prod.mk.injEq] at h

namespace Reader

/-- Reads an `α` and makes it a `β`. -/
def map {α β : Type} (f : α → β) (r : Reader α) : Reader β where
  read s := (r.read s).map fun (a, rest) ↦ (f a, rest)
  shortens h := by
    obtain ⟨⟨a, r'⟩, ha, hb⟩ := map_eq_ok_iff.1 h
    rw [Prod.mk.injEq] at hb
    exact hb.2 ▸ r.shortens ha

/-- Reads a text that holds one value, between blanks, and nothing else. -/
def document {α : Type} (r : Reader α) (text : String) : Except Error α :=
  let s := text.toList
  match r.read s with
  | .error f => .error (f.inText s)
  | .ok (a, rest) =>
    match skipBlanks rest with
    | [] => .ok a
    | rest => .error ((Fault.past .trailingCharacters rest).inText s)

end Reader

/-! ## Words and separators -/

/-- Reads the rest of a word that is known by its first letter. -/
def spell : List Char → List Char → Except Fault (List Char)
  | [], s => .ok s
  | _ :: _, [] => .error (.ended .value)
  | l :: ls, c :: s => if l = c then spell ls s else .error (.past .unknownWord (c :: s))

theorem spell_length_le {ls s rest : List Char} (h : spell ls s = .ok rest) :
    rest.length ≤ s.length := by
  fun_induction spell ls s with
  | case1 s => simp_all
  | case2 => simp at h
  | case3 ls c s ih => exact Nat.le_trans (ih h) (Nat.le_succ _)
  | case4 => simp at h

/-- Reads the colon between a key and its value. -/
def colon (s : List Char) : Except Fault (List Char) :=
  match skipBlanks s with
  | [] => .error (.ended (.enclosed .object))
  | ':' :: rest => .ok rest
  | rest => .error (.past .expectedColon rest)

theorem colon_length_lt {s rest : List Char} (h : colon s = .ok rest) :
    rest.length < s.length := by
  unfold colon at h
  split at h
  · simp at h
  · next heq =>
    simp only [Except.ok.injEq] at h
    subst h
    exact length_lt_of_skipBlanks heq
  · simp at h

end TreeDrawing.Json
