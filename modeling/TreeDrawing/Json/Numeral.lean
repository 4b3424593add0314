import TreeDrawing.Json.Reader

/-!
# Numbers in a document

A number is written as a whole part without leading zeros, then perhaps a fraction, then perhaps an
exponent. `readNumeral` takes the longest such text off the front of a document; `Numeral.value`
says which number was written.

## Integers and reals

A number with neither fraction nor exponent is an integer if it fits into 64 bits: up to `2⁶⁴ - 1`,
and down to `-2⁶³`. Every other number is a real, and is rounded to the 64-bit floating-point
format. So is `-0`, since no integer keeps its sign.

A real is computed from two integers, a significand and a decimal exponent. The significand takes
the digits as long as it fits into 64 bits. Digits of the whole part that no longer fit count for
the exponent, digits of the fraction do not count at all.
-/

namespace TreeDrawing.Json

/-- The exponent of a numeral, as it is written. -/
structure Exponent where
  negative : Bool
  digits : List Char

/-- A number as it is written. -/
structure Numeral where
  negative : Bool
  whole : List Char
  /-- The digits behind the point; none if there is no point. -/
  fraction : List Char
  exponent? : Option Exponent

/-! ## Reading a numeral -/

/-- Splits a text behind the digits at its front. -/
def splitDigits (s : List Char) : List Char × List Char :=
  (s.takeWhile Char.isDigit, s.dropWhile Char.isDigit)

/-- Whether a text goes on with a digit. -/
def startsWithDigit (s : List Char) : Bool := s.head?.any Char.isDigit

/-- The fault of a number that does not go on with a digit where it must; `cut` is the cause if
the text ends there. -/
def missingDigit (cut : Cause) : List Char → Fault
  | [] => .at cut []
  | s => .past .invalidNumber s

/-- Reads a minus sign if there is one. -/
def readMinus : List Char → Bool × List Char
  | '-' :: s => (true, s)
  | s => (false, s)

/-- Reads the digits before the point. -/
def readWhole (cut : Cause) (s : List Char) : Except Fault (List Char × List Char) :=
  match s with
  | '0' :: rest =>
    if startsWithDigit rest then .error (.past .invalidNumber rest) else .ok (['0'], rest)
  | s => if startsWithDigit s then .ok (splitDigits s) else .error (missingDigit cut s)

/-- Reads the point and the digits behind it, if there is a point. -/
def readFraction (cut : Cause) (s : List Char) : Except Fault (List Char × List Char) :=
  match s with
  | '.' :: rest =>
    if startsWithDigit rest then .ok (splitDigits rest) else .error (missingDigit cut rest)
  | s => .ok ([], s)

/-- Reads the sign of an exponent, if there is one. -/
def readExponentSign : List Char → Bool × List Char
  | '+' :: s => (false, s)
  | s => readMinus s

/-- Reads an exponent, if there is one. -/
def readExponent (cut : Cause) (s : List Char) : Except Fault (Option Exponent × List Char) :=
  match s with
  | [] => .ok (none, [])
  | c :: rest =>
    if c = 'e' ∨ c = 'E' then
      let (negative, rest) := readExponentSign rest
      if startsWithDigit rest then
        .ok (some ⟨negative, (splitDigits rest).1⟩, (splitDigits rest).2)
      else .error (missingDigit cut rest)
    else .ok (none, s)

/-- Reads a number; `cut` is the cause if the text ends where a digit must follow. -/
def readNumeral (cut : Cause) (s : List Char) : Except Fault (Numeral × List Char) := do
  let (negative, s) := readMinus s
  let (whole, s) ← readWhole cut s
  let (fraction, s) ← readFraction cut s
  let (exponent?, s) ← readExponent cut s
  .ok (⟨negative, whole, fraction, exponent?⟩, s)

theorem splitDigits_length_le (s : List Char) : (splitDigits s).2.length ≤ s.length :=
  (List.dropWhile_suffix Char.isDigit).length_le

theorem splitDigits_length_lt {s : List Char} (h : startsWithDigit s = true) :
    (splitDigits s).2.length < s.length := by
  match s, h with
  | c :: rest, h =>
    have hc : c.isDigit = true := by simpa [startsWithDigit] using h
    have := splitDigits_length_le rest
    simp only [splitDigits, List.dropWhile_cons, hc, if_true, List.length_cons] at this ⊢
    omega

theorem readMinus_length_le (s : List Char) : (readMinus s).2.length ≤ s.length := by
  fun_cases readMinus s <;> simp

theorem readWhole_length_lt {cut : Cause} {s rest ds : List Char}
    (h : readWhole cut s = .ok (ds, rest)) : rest.length < s.length := by
  unfold readWhole at h
  split at h
  · split at h <;> simp_all
  · split at h
    · next hs =>
      rw [Except.ok.injEq] at h
      have := splitDigits_length_lt hs
      rwa [h] at this
    · simp at h

theorem readFraction_length_le {cut : Cause} {s rest ds : List Char}
    (h : readFraction cut s = .ok (ds, rest)) : rest.length ≤ s.length := by
  unfold readFraction at h
  split at h
  · next r =>
    split at h
    · rw [Except.ok.injEq] at h
      have := splitDigits_length_le r
      rw [h] at this
      exact Nat.le_succ_of_le this
    · simp at h
  · simp_all

theorem readExponentSign_length_le (s : List Char) :
    (readExponentSign s).2.length ≤ s.length := by
  unfold readExponentSign
  split
  · simp
  · exact readMinus_length_le s

theorem readExponent_length_le {cut : Cause} {s rest : List Char} {e : Option Exponent}
    (h : readExponent cut s = .ok (e, rest)) : rest.length ≤ s.length := by
  unfold readExponent at h
  split at h
  · simp_all
  · next c r =>
    split at h
    · dsimp only at h
      split at h
      · simp only [Except.ok.injEq, Prod.mk.injEq] at h
        have := splitDigits_length_le (readExponentSign r).2
        have := readExponentSign_length_le r
        rw [← h.2, List.length_cons]
        omega
      · simp at h
    · simp_all

theorem readNumeral_length_lt {cut : Cause} {s rest : List Char} {n : Numeral}
    (h : readNumeral cut s = .ok (n, rest)) : rest.length < s.length := by
  have := readMinus_length_le s
  rcases hm : readMinus s with ⟨negative, s₀⟩
  simp only [hm] at this
  simp only [readNumeral, hm] at h
  obtain ⟨⟨w, s₁⟩, h₁, h⟩ := bind_eq_ok_iff.1 h
  obtain ⟨⟨f, s₂⟩, h₂, h⟩ := bind_eq_ok_iff.1 h
  obtain ⟨⟨e, s₃⟩, h₃, h⟩ := bind_eq_ok_iff.1 h
  have : s₁.length < s₀.length := readWhole_length_lt h₁
  have : s₂.length ≤ s₁.length := readFraction_length_le h₂
  have : s₃.length ≤ s₂.length := readExponent_length_le h₃
  simp only [Except.ok.injEq, Prod.mk.injEq] at h
  rw [← h.2]
  omega

/-! ## The number that is meant -/

/-- The value of a decimal digit. -/
def digitValue (c : Char) : Nat := c.toNat - '0'.toNat

/-- Takes digits into a number as long as it does not exceed `limit`, and says which are left. -/
def takeDigits (limit n : Nat) : List Char → Nat × List Char
  | [] => (n, [])
  | d :: ds =>
    let m := n * 10 + digitValue d
    if m ≤ limit then takeDigits limit m ds else (n, d :: ds)

/-- The greatest integer of 64 bits without a sign. -/
def maxUnsigned : Nat := Nat.pow 2 64 - 1

/-- The greatest integer of 32 bits with a sign. -/
def maxExponent : Nat := Nat.pow 2 31 - 1

/-- The greatest power of ten that is a floating-point number is `10 ^ 308`. -/
def maxPower : Nat := 308

/-- A power of ten, rounded to the floating-point format. -/
def powerOfTen (n : Nat) : Float := Float.ofScientific 1 false n

/-- Divides by a power of ten, in steps that the format can express. A quotient of zero remains
zero. -/
def dividePower (x : Float) (n : Nat) : Float :=
  if n ≤ maxPower then x / powerOfTen n
  else if x == 0 then x
  else dividePower (x / powerOfTen maxPower) (n - maxPower)
termination_by n
decreasing_by simp_all [maxPower]; omega

/-- The value of `significand · 10 ^ exponent`; none if it exceeds every finite number. -/
def scaled? (significand : Nat) (exponent : Int) : Option Float :=
  let x := Float.ofNat significand
  if exponent < 0 then some (dividePower x exponent.natAbs)
  else if exponent.toNat ≤ maxPower then
    let y := x * powerOfTen exponent.toNat
    if y.isInf then none else some y
  else if significand = 0 then some 0
  else none

/-- The value of a number that is not written as an integer. A number that exceeds every finite one
is refused; the error is what was left unread of it when that became certain. An exponent beyond
32 bits is certain to be too great, or to make the number zero, before its end. -/
def realValue (n : Numeral) : Except (List Char) Float :=
  let (w, beyond) := takeDigits maxUnsigned 0 n.whole
  let (significand, ignored) := takeDigits maxUnsigned w n.fraction
  let shift : Int := (beyond.length : Int) - (n.fraction.length - ignored.length : Nat)
  let (negative, digits) := match n.exponent? with
    | none => (false, [])
    | some e => (e.negative, e.digits)
  let (e, unread) := takeDigits maxExponent 0 digits
  let magnitude? : Except (List Char) Float :=
    match unread with
    | _ :: unread => if significand = 0 ∨ negative then .ok 0 else .error unread
    | [] =>
      match scaled? significand (if negative then shift - e else shift + e) with
      | some x => .ok x
      | none => .error []
  magnitude?.map fun x ↦ if n.negative then -x else x

/-- The integer that a numeral stands for, if it stands for one. -/
def integerValue? (n : Numeral) : Option Int :=
  if n.fraction.isEmpty && n.exponent?.isNone then
    match takeDigits maxUnsigned 0 n.whole with
    | (m, []) =>
      if !n.negative then some m
      else if 0 < m ∧ m ≤ Nat.pow 2 63 then some (-m)
      else none
    | _ => none
  else none

/-- Which number is meant, and of which sort it is. -/
def Numeral.value (n : Numeral) : Except (List Char) Found :=
  match integerValue? n with
  | some m => .ok (.integer m)
  | none => (realValue n).map fun x ↦ .real (.ofFloat x)

/-- Reads a number for its value. -/
def readNumber (s : List Char) : Except Fault (Found × List Char) := do
  let (n, rest) ← readNumeral (.unfinished .value) s
  match n.value with
  | .ok v => .ok (v, rest)
  | .error unread => .error (.at .numberOutOfRange (unread ++ rest))

/-- Passes over a number; its value does not matter. -/
def skipNumber (s : List Char) : Except Fault (List Char) :=
  (readNumeral .invalidNumber s).map Prod.snd

theorem skipNumber_length_lt {s rest : List Char} (h : skipNumber s = .ok rest) :
    rest.length < s.length := by
  obtain ⟨⟨n, r⟩, h₁, rfl⟩ := map_eq_ok_iff.1 h
  exact readNumeral_length_lt h₁

end TreeDrawing.Json
