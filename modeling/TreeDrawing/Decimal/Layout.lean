import TreeDrawing.Decimal.Shortest

/-!
# Laying out a decimal

Which digits stand for a number is settled in `TreeDrawing.Decimal.Shortest`; this module decides
where the decimal point goes. Numbers of moderate size are written out, with at least one digit on
each side of the point, and all others with one digit before the point and an exponent.
-/

namespace TreeDrawing.Decimal

/-- Which numbers are written out, by the exponent of their leading digit, and how an exponent
that is not negative is marked. -/
structure Layout where
  least : Int
  greatest : Int
  plus : String

/-- Numbers from `0.00001` up to, but not including, `10 ^ 16` are written out. -/
def Layout.plain : Layout where
  least := -5
  greatest := 15
  plus := "+"

/-- A run of zeros. -/
private def zeros (n : Nat) : String := "".pushn '0' n

/-- Writes digits with the point so placed that the first of them has the weight `10 ^ lead`. -/
private def writtenOut (digits : String) (lead : Int) : String :=
  if lead < 0 then "0." ++ zeros (-lead - 1).toNat ++ digits
  else
    let whole := lead.toNat + 1
    if digits.length ≤ whole then digits ++ zeros (whole - digits.length) ++ ".0"
    else
      String.ofList (digits.toList.take whole) ++ "." ++ String.ofList (digits.toList.drop whole)

/-- Writes digits with the point after the first of them, and the exponent of that digit. -/
private def withExponent (plus digits : String) (lead : Int) : String :=
  let tail := digits.toList.drop 1
  String.ofList (digits.toList.take 1) ++ (if tail.isEmpty then "" else "." ++ String.ofList tail)
    ++ "e" ++ (if lead < 0 then "" else plus) ++ toString lead

/-- Writes a decimal without its sign. -/
def Layout.writeMagnitude (l : Layout) (d : Scaled) : String :=
  let digits := toString d.coefficient
  let lead := d.exponent + digits.length - 1
  if l.least ≤ lead ∧ lead ≤ l.greatest then writtenOut digits lead
  else withExponent l.plus digits lead

/-- Writes a decimal. -/
def Layout.write (l : Layout) (d : Signed) : String :=
  (if d.negative then "-" else "") ++ l.writeMagnitude d.magnitude

end TreeDrawing.Decimal
