/-!
# Shortest decimals

A binary floating-point value stands for every real number that rounds to it. Writing it down
means choosing a decimal among those reals, and the choice here is the usual one: as few digits as
possible, and of those decimals the one nearest to the value.

## The window and the grids

The reals that round to a value form a *window* around it, whose ends are half way to its two
neighbours. The decimals `d · 10ᵉ` with a fixed exponent `e` form a *grid*, and fewer digits means
a coarser grid. So the search goes from the coarsest grid to finer ones and stops at the first
that has a point in the window. If a grid has a point in the window at all, then one of the two
grid points beside the value lies there, and it is enough to look at those two.

Everything is exact arithmetic on natural numbers: window, value and grid are brought to a common
denominator first.
-/

namespace TreeDrawing.Decimal

/-- A finite positive value `significand · 2 ^ exponent`. -/
structure Binary where
  significand : Nat
  exponent : Int
  /-- Whether the next value below is only half as far away as the next one above, which is so at
  a power of two. -/
  narrowBelow : Bool

/-- The absolute value of a finite number in the 64-bit format. -/
def Binary.ofFloat (x : Float) : Binary :=
  let bits := x.toBits.toNat
  let field : Nat := bits / Nat.pow 2 52 % Nat.pow 2 11
  let fraction : Nat := bits % Nat.pow 2 52
  if field = 0 then ⟨fraction, -1074, false⟩
  else ⟨Nat.pow 2 52 + fraction, (field : Int) - 1075, fraction == 0 && 1 < field⟩

/-- A value and its window, measured on a grid: `unit` is the distance from one grid point to the
next, and the window reaches from `low` to `high`. -/
structure Grid where
  low : Nat
  value : Nat
  high : Nat
  unit : Nat
  /-- Whether the ends belong to the window: a tie is rounded to an even significand. -/
  closed : Bool

/-- The grid of the multiples of `10 ^ e`. -/
def Binary.grid (x : Binary) (e : Int) : Grid :=
  let scale := Nat.pow 2 x.exponent.toNat * Nat.pow 10 (-e).toNat
  { low := (4 * x.significand - if x.narrowBelow then 1 else 2) * scale
    value := 4 * x.significand * scale
    high := (4 * x.significand + 2) * scale
    unit := 4 * Nat.pow 2 (-x.exponent).toNat * Nat.pow 10 e.toNat
    closed := x.significand % 2 = 0 }

namespace Grid

variable (g : Grid)

/-- Whether the grid point with index `d` lies in the window. -/
def holds (d : Nat) : Bool :=
  let p := d * g.unit
  if g.closed then g.low ≤ p && p ≤ g.high else g.low < p && p < g.high

/-- Of the two grid points beside the value the nearer one; half way between them, the one with an
even index. -/
def nearest : Nat :=
  let d := g.value / g.unit
  match compare (2 * g.value) ((2 * d + 1) * g.unit) with
  | .lt => d
  | .gt => d + 1
  | .eq => if d % 2 = 0 then d else d + 1

/-- The grid point in the window that lies nearest to the value. -/
def pick? : Option Nat :=
  let d := g.value / g.unit
  match g.holds d, g.holds (d + 1) with
  | true, true => some g.nearest
  | true, false => some d
  | false, true => some (d + 1)
  | false, false => none

end Grid

/-- The decimal `coefficient · 10 ^ exponent`. -/
structure Scaled where
  coefficient : Nat
  exponent : Int
  deriving DecidableEq

/-- Searches the grids of `10 ^ (n - 1075)`, `10 ^ (n - 1076)` and so on down to `10 ^ (-1074)`.
On the last one the value itself is a grid point, since `2 ^ (-1074)` is a multiple of it, and
that point is the answer if no coarser grid has one. -/
def Binary.search (x : Binary) : Nat → Scaled
  | 0 => ⟨x.significand * Nat.pow 2 (x.exponent + 1074).toNat * Nat.pow 5 1074, -1074⟩
  | n + 1 =>
    let e := (n : Int) - 1074
    match (x.grid e).pick? with
    | some d => ⟨d, e⟩
    | none => x.search n

/-- The shortest decimal in the window, and of those the nearest to the value. No finite value
reaches `10 ^ 309`, so the search starts at that grid. -/
def Binary.shortest (x : Binary) : Scaled := x.search (309 + 1075)

/-- A decimal with its sign. Zero has two of them. -/
structure Signed where
  negative : Bool
  magnitude : Scaled
  deriving DecidableEq

/-- The decimal that stands for a finite number. -/
def Signed.ofFloat (x : Float) : Signed :=
  let magnitude := Binary.ofFloat x
  { negative := x.toBits >>> 63 != 0
    magnitude := if magnitude.significand = 0 then ⟨0, 0⟩ else magnitude.shortest }

end TreeDrawing.Decimal
