import TreeDrawing.Json.List

/-!
# Records in a document

A record has named fields, all of which may be missing, and can be given in two ways.

* An *object* gives fields by name, in any order, each at most once. Keys that are not fields of
  the record are passed over together with their values.
* A *list* gives fields by position. It may stop before the last field, but not go on behind it.

A field that is not given keeps the value it has in the blank record. Like a list, a record takes
up one level of nesting; the values that are passed over take up none.

## Main definitions

* `RecordField`: a key, and the reader of the value that goes with it.
* `Reader.record`: the reader of a record with given fields.
-/

namespace TreeDrawing.Json

/-- A field of a record: the key it is given by, and the reader of its value, which tells how the
value changes the record. -/
structure RecordField (σ : Type) where
  key : String
  value : Reader (σ → σ)

variable {σ : Type}

/-- A record of which some fields have been given. -/
structure Progress (σ : Type) where
  record : σ
  /-- The keys of the fields that have been given, the latest first. -/
  given : List String := []

/-- Reads on inside an object: up to the first key or, behind a value, up to the next one, past
its opening quote, or past the closing bracket. -/
def readKey (first : Bool) (s : List Char) : Except Fault Following :=
  match skipBlanks s with
  | [] => .error (.ended (.enclosed .object))
  | '\x7d' :: rest => .ok (.closed rest)
  | c :: rest =>
    if first then
      if c = '"' then .ok (.entry rest) else .error (.past .keyNotText (c :: rest))
    else if c = ',' then
      match skipBlanks rest with
      | [] => .error (.ended .value)
      | '"' :: rest => .ok (.entry rest)
      | '\x7d' :: rest => .error (.past .trailingComma ('\x7d' :: rest))
      | rest => .error (.past .keyNotText rest)
    else .error (.past (.expectedSeparator .object) (c :: rest))

theorem readKey_length_lt {first : Bool} {s : List Char} {f : Following}
    (h : readKey first s = .ok f) : f.rest.length < s.length := by
  unfold readKey at h
  split at h
  · simp at h
  · next heq =>
    cases h
    exact length_lt_of_skipBlanks heq
  · next c rest _ heq =>
    have hr := length_lt_of_skipBlanks heq
    split at h
    · split at h
      · cases h
        exact hr
      · simp at h
    · split at h
      · split at h
        · simp at h
        · next heq' =>
          cases h
          exact Nat.lt_trans (length_lt_of_skipBlanks heq') hr
        · simp at h
        · simp at h
      · simp at h

/-- The fault of a key that is given for the second time. It is found only behind the blanks that
follow the key, and behind the end of the object if that comes next. -/
def duplicate (key : String) (s : List Char) : Fault :=
  match skipBlanks s with
  | '\x7d' :: rest => .at (.duplicateKey key) rest
  | rest => .at (.duplicateKey key) rest

/-- Reads a key behind its opening quote, and its value. -/
def readMember (fields : List (RecordField σ)) (p : Progress σ) (s : List Char) :
    Except Fault (Progress σ × List Char) := do
  let (key, s) ← readText "" s
  match fields.find? (·.key = key) with
  | none =>
    let s ← colon s
    let s ← skipValue s
    .ok (p, s)
  | some field =>
    if key ∈ p.given then .error (duplicate key s)
    else
      let s ← colon s
      let (change, s) ← field.value.read s
      .ok ({ record := change p.record, given := key :: p.given }, s)

theorem readMember_length_lt {fields : List (RecordField σ)} {p q : Progress σ}
    {s rest : List Char} (h : readMember fields p s = .ok (q, rest)) : rest.length < s.length := by
  unfold readMember at h
  obtain ⟨⟨key, s₁⟩, h₁, h⟩ := bind_eq_ok_iff.1 h
  have := readText_length_lt h₁
  dsimp only at h
  split at h
  · obtain ⟨s₂, h₂, h⟩ := bind_eq_ok_iff.1 h
    obtain ⟨s₃, h₃, h⟩ := bind_eq_ok_iff.1 h
    have := colon_length_lt h₂
    have := skipValue_length_lt h₃
    simp only [Except.ok.injEq, Prod.mk.injEq] at h
    rw [← h.2]
    omega
  · next field _ =>
    split at h
    · simp at h
    · obtain ⟨s₂, h₂, h⟩ := bind_eq_ok_iff.1 h
      obtain ⟨⟨change, s₃⟩, h₃, h⟩ := bind_eq_ok_iff.1 h
      have := colon_length_lt h₂
      have := field.value.shortens h₃
      simp only [Except.ok.injEq, Prod.mk.injEq] at h
      rw [← h.2]
      omega

/-- Reads an object up to its closing bracket. -/
def readMembers (fields : List (RecordField σ)) (p : Progress σ) (first : Bool) (s : List Char) :
    Except Fault (σ × List Char) :=
  match _h : readKey first s with
  | .error f => .error f
  | .ok (.closed rest) => .ok (p.record, rest)
  | .ok (.entry rest) =>
    match _h' : readMember fields p rest with
    | .error f => .error f
    | .ok (p, rest) => readMembers fields p false rest
termination_by s.length
decreasing_by exact Nat.lt_trans (readMember_length_lt _h') (readKey_length_lt _h)

theorem readMembers_length_lt {fields : List (RecordField σ)} {p : Progress σ} {x : σ}
    {first : Bool} {s rest : List Char} (h : readMembers fields p first s = .ok (x, rest)) :
    rest.length < s.length := by
  fun_induction readMembers fields p first s with
  | case1 => simp at h
  | case2 p first s r hr =>
    simp only [Except.ok.injEq, Prod.mk.injEq] at h
    exact h.2 ▸ readKey_length_lt hr
  | case3 => simp at h
  | case4 p first s r hr q r' hm ih =>
    have : r.length < s.length := readKey_length_lt hr
    have := readMember_length_lt hm
    have := ih h
    omega

/-- Reads the end of a list that has given every field. -/
def readListEnd (s : List Char) : Except Fault (List Char) :=
  match skipBlanks s with
  | [] => .error (.ended (.enclosed .list))
  | ']' :: rest => .ok rest
  | ',' :: rest =>
    match skipBlanks rest with
    | ']' :: rest => .error (.past .trailingComma (']' :: rest))
    | rest => .error (.past .trailingCharacters rest)
  | rest => .error (.past .trailingCharacters rest)

theorem readListEnd_length_lt {s rest : List Char} (h : readListEnd s = .ok rest) :
    rest.length < s.length := by
  unfold readListEnd at h
  split at h
  · simp at h
  · next heq =>
    cases h
    exact length_lt_of_skipBlanks heq
  · split at h <;> simp at h
  · simp at h

/-- Reads a list into the record `x`, one item for each field, up to its closing bracket. -/
def readFields (x : σ) (first : Bool) (s : List Char) :
    List (RecordField σ) → Except Fault (σ × List Char)
  | [] => (readListEnd s).map (x, ·)
  | field :: fields => do
    match ← readItem first s with
    | .closed rest => .ok (x, rest)
    | .entry rest =>
      let (change, rest) ← field.value.read rest
      readFields (change x) false rest fields

theorem readFields_length_lt {fields : List (RecordField σ)} {x y : σ} {first : Bool}
    {s rest : List Char} (h : readFields x first s fields = .ok (y, rest)) :
    rest.length < s.length := by
  induction fields generalizing x first s with
  | nil =>
    obtain ⟨r, h₁, h₂⟩ := map_eq_ok_iff.1 h
    rw [Prod.mk.injEq] at h₂
    exact h₂.2 ▸ readListEnd_length_lt h₁
  | cons field fields ih =>
    obtain ⟨f, h₁, h⟩ := bind_eq_ok_iff.1 h
    match f, h₁, h with
    | .closed r, h₁, h =>
      simp only [Except.ok.injEq, Prod.mk.injEq] at h
      exact h.2 ▸ readItem_closed_length_lt h₁
    | .entry r, h₁, h =>
      obtain ⟨⟨change, r'⟩, h₂, h⟩ := bind_eq_ok_iff.1 h
      have : r.length ≤ s.length := readItem_length_le h₁
      have := field.value.shortens h₂
      have := ih h
      omega

/-- Reads a record, of which `wanted` is the name in messages, starting from the blank record. The
fields are missing if there is no room for a record. -/
def Reader.record (wanted : String) (blank : σ) (fields? : Option (List (RecordField σ))) :
    Reader σ where
  read s :=
    match skipBlanks s with
    | '\x7b' :: rest =>
      match fields? with
      | none => .error (.past .nestedTooDeeply ('\x7b' :: rest))
      | some fields => readMembers fields { record := blank } true rest
    | '[' :: rest =>
      match fields? with
      | none => .error (.past .nestedTooDeeply ('[' :: rest))
      | some fields => readFields blank true rest fields
    | rest => .error (unwanted wanted rest)
  shortens h := by
    split at h
    · next heq =>
      split at h
      · simp at h
      · exact Nat.lt_trans (readMembers_length_lt h) (length_lt_of_skipBlanks heq)
    · next heq =>
      split at h
      · simp at h
      · exact Nat.lt_trans (readFields_length_lt h) (length_lt_of_skipBlanks heq)
    · simp at h

/-- How many lists and records may be open at once. -/
def maxNesting : Nat := 127

end TreeDrawing.Json
