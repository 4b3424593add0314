import TreeDrawing.Json.Reader

/-!
# Texts in a document

A text is written between double quotes. Inside, a backslash starts an escape, and characters
below the space must be written as one.

## Reading and passing over

Texts are read in two ways. `readText` reads a text for its characters, so an escape must name one:
escapes of surrogates have to come in pairs. `skipText` only looks for the end of the text, and
there four hexadecimal digits are as good as any others. The two also put the fault of a control
character in different places, after it and before it.

Both start behind the opening quote, and end behind the closing one.
-/

namespace TreeDrawing.Json

/-! ## Escapes -/

/-- The value of a hexadecimal digit, in either case. -/
def hexValue? (c : Char) : Option Nat :=
  if '0' ≤ c ∧ c ≤ '9' then some (c.toNat - '0'.toNat)
  else if 'a' ≤ c ∧ c ≤ 'f' then some (c.toNat - 'a'.toNat + 10)
  else if 'A' ≤ c ∧ c ≤ 'F' then some (c.toNat - 'A'.toNat + 10)
  else none

/-- The fault of four bytes that are not four hexadecimal digits. They have to be there to be
wrong; if they are not, the text ends too early. -/
def badDigits (s : List Char) : Fault :=
  if byteCount (s.take 4) < 4 then .ended .text else ⟨.invalidEscape, s, 4⟩

/-- Reads the four hexadecimal digits of an escape. -/
def readUnit : List Char → Except Fault (Nat × List Char)
  | a :: b :: c :: d :: rest =>
    match hexValue? a, hexValue? b, hexValue? c, hexValue? d with
    | some a, some b, some c, some d => .ok (((a * 16 + b) * 16 + c) * 16 + d, rest)
    | _, _, _, _ => .error (badDigits (a :: b :: c :: d :: rest))
  | s => .error (badDigits s)

/-- Whether a unit is the first half of a surrogate pair. -/
def isFirstHalf (u : Nat) : Bool := 0xD800 ≤ u && u ≤ 0xDBFF

/-- Whether a unit is the second half of a surrogate pair. -/
def isSecondHalf (u : Nat) : Bool := 0xDC00 ≤ u && u ≤ 0xDFFF

/-- The character beyond the first 65536 that a surrogate pair names. -/
def ofPair (u v : Nat) : Char := Char.ofNat (0x10000 + (u - 0xD800) * 0x400 + (v - 0xDC00))

/-- Reads the character that has to follow the first half of a pair. -/
def readSign (sign : Char) : List Char → Except Fault (List Char)
  | [] => .error (.ended .text)
  | c :: rest => if c = sign then .ok rest else .error (.past .brokenPair (c :: rest))

/-- Reads the second half of a surrogate pair, whose first half is `u`. -/
def readSecondHalf (u : Nat) (s : List Char) : Except Fault (Char × List Char) := do
  let s ← readSign '\\' s
  let s ← readSign 'u' s
  let (v, rest) ← readUnit s
  if isSecondHalf v then .ok (ofPair u v, rest) else .error (.at .loneSurrogate rest)

/-- Reads a character given by its number: one unit, or two if the first is half of a pair. -/
def readNumbered (s : List Char) : Except Fault (Char × List Char) := do
  let (u, rest) ← readUnit s
  if isSecondHalf u then .error (.at .loneSurrogate rest)
  else if isFirstHalf u then readSecondHalf u rest
  else .ok (Char.ofNat u, rest)

/-- The characters that have an escape of one letter. -/
def ofLetter? : Char → Option Char
  | '"' => some '"'
  | '\\' => some '\\'
  | '/' => some '/'
  | 'b' => some '\x08'
  | 'f' => some '\x0C'
  | 'n' => some '\n'
  | 'r' => some '\r'
  | 't' => some '\t'
  | _ => none

/-- Reads an escape behind its backslash. -/
def readEscape : List Char → Except Fault (Char × List Char)
  | [] => .error (.ended .text)
  | c :: rest =>
    if c = 'u' then readNumbered rest
    else
      match ofLetter? c with
      | some d => .ok (d, rest)
      | none => .error (.past .invalidEscape (c :: rest))

/-- Passes over an escape behind its backslash. -/
def skipEscape : List Char → Except Fault (List Char)
  | [] => .error (.ended .text)
  | c :: rest =>
    if c = 'u' then (readUnit rest).map Prod.snd
    else if (ofLetter? c).isSome then .ok rest
    else .error (.past .invalidEscape (c :: rest))

theorem readUnit_length_lt {s rest : List Char} {u : Nat} (h : readUnit s = .ok (u, rest)) :
    rest.length < s.length := by
  fun_cases readUnit s <;> simp_all [readUnit]
  omega

theorem readSign_length_lt {sign : Char} {s rest : List Char} (h : readSign sign s = .ok rest) :
    rest.length < s.length := by
  fun_cases readSign sign s <;> simp_all [readSign]

theorem readSecondHalf_length_lt {u : Nat} {s rest : List Char} {c : Char}
    (h : readSecondHalf u s = .ok (c, rest)) : rest.length < s.length := by
  obtain ⟨s₁, h₁, h⟩ := bind_eq_ok_iff.1 h
  obtain ⟨s₂, h₂, h⟩ := bind_eq_ok_iff.1 h
  obtain ⟨⟨v, s₃⟩, h₃, h⟩ := bind_eq_ok_iff.1 h
  have := readSign_length_lt h₁
  have := readSign_length_lt h₂
  have := readUnit_length_lt h₃
  dsimp only at h
  split at h
  · simp only [Except.ok.injEq, Prod.mk.injEq] at h
    rw [← h.2]
    omega
  · simp at h

theorem readNumbered_length_lt {s rest : List Char} {c : Char}
    (h : readNumbered s = .ok (c, rest)) : rest.length < s.length := by
  obtain ⟨⟨u, s₁⟩, h₁, h⟩ := bind_eq_ok_iff.1 h
  have := readUnit_length_lt h₁
  dsimp only at h
  split at h
  · simp at h
  · split at h
    · have := readSecondHalf_length_lt h
      omega
    · simp only [Except.ok.injEq, Prod.mk.injEq] at h
      rw [← h.2]
      omega

theorem readEscape_length_lt {s rest : List Char} {c : Char}
    (h : readEscape s = .ok (c, rest)) : rest.length < s.length := by
  unfold readEscape at h
  split at h
  · simp at h
  · split at h
    · have := readNumbered_length_lt h
      simp only [List.length_cons]
      omega
    · split at h <;> simp_all

theorem skipEscape_length_lt {s rest : List Char} (h : skipEscape s = .ok rest) :
    rest.length < s.length := by
  unfold skipEscape at h
  split at h
  · simp at h
  · split at h
    · obtain ⟨⟨u, s₁⟩, h₁, rfl⟩ := map_eq_ok_iff.1 h
      exact Nat.lt_succ_of_lt (readUnit_length_lt h₁)
    · split at h <;> simp_all

/-! ## Whole texts -/

/-- Whether a character may not stand for itself in a text. -/
def isControl (c : Char) : Bool := c.toNat < 0x20

/-- Reads a text for its characters, which are added to `out`. -/
def readText (out : String) (s : List Char) : Except Fault (String × List Char) :=
  match s with
  | [] => .error (.ended .text)
  | c :: rest =>
    if c = '"' then .ok (out, rest)
    else if c = '\\' then
      match _h : readEscape rest with
      | .error f => .error f
      | .ok (d, rest) => readText (out.push d) rest
    else if isControl c then .error (.past .controlCharacter (c :: rest))
    else readText (out.push c) rest
termination_by s.length
decreasing_by
  · have := readEscape_length_lt _h
    simp only [List.length_cons]
    omega
  · simp

/-- Passes over a text. -/
def skipText (s : List Char) : Except Fault (List Char) :=
  match s with
  | [] => .error (.ended .text)
  | c :: rest =>
    if c = '"' then .ok rest
    else if c = '\\' then
      match _h : skipEscape rest with
      | .error f => .error f
      | .ok rest => skipText rest
    else if isControl c then .error (.at .controlCharacter (c :: rest))
    else skipText rest
termination_by s.length
decreasing_by
  · have := skipEscape_length_lt _h
    simp only [List.length_cons]
    omega
  · simp

theorem readText_length_lt {out t : String} {s rest : List Char}
    (h : readText out s = .ok (t, rest)) : rest.length < s.length := by
  fun_induction readText out s with
  | case1 => simp at h
  | case2 => simp_all
  | case3 => simp at h
  | case4 out r d rest' he _ ih =>
    have := ih h
    have := readEscape_length_lt he
    simp only [List.length_cons]
    omega
  | case5 => simp at h
  | case6 out c r _ _ _ ih => exact Nat.lt_succ_of_lt (ih h)

theorem skipText_length_lt {s rest : List Char} (h : skipText s = .ok rest) :
    rest.length < s.length := by
  fun_induction skipText s with
  | case1 => simp at h
  | case2 => simp_all
  | case3 => simp at h
  | case4 r rest' he _ ih =>
    have := ih h
    have := skipEscape_length_lt he
    simp only [List.length_cons]
    omega
  | case5 => simp at h
  | case6 c r _ _ _ ih => exact Nat.lt_succ_of_lt (ih h)

/-! ## Writing -/

/-- The two hexadecimal digits of a number below 256. -/
def hexPair (n : Nat) : String := String.ofList [(n / 16).digitChar, (n % 16).digitChar]

/-- How a character is written in a text: what has to be escaped has its letter if there is one,
and everything else stands for itself. -/
def escaped : Char → String
  | '"' => "\\\""
  | '\\' => "\\\\"
  | '\x08' => "\\b"
  | '\x0C' => "\\f"
  | '\n' => "\\n"
  | '\r' => "\\r"
  | '\t' => "\\t"
  | c => if isControl c then "\\u00" ++ hexPair c.toNat else c.toString

/-- Writes a text after `out`. -/
def writeText (s out : String) : String :=
  (s.foldl (fun out c ↦ out ++ escaped c) (out.push '"')).push '"'

/-- Writes a key and its colon after `out`. -/
def writeKey (key out : String) : String := (writeText key out).push ':'

/-- Writes a key whose value is a text after `out`. -/
def writeEntry (key s out : String) : String := writeText s (writeKey key out)

end TreeDrawing.Json
