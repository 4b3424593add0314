import Mathlib.Algebra.Order.Field.Power
import Mathlib.Data.Rat.Cast.Order
import Mathlib.Tactic.Linarith
import Mathlib.Tactic.NormNum
import Mathlib.Tactic.Positivity
import Mathlib.Tactic.Ring
import TreeDrawing.Decimal.Shortest

/-!
# The law of shortest decimals

What a shortest decimal is can be said without grids and without a search (`Binary.IsShortest`). The
window of a value is the interval of the rational numbers that round to it. A decimal for the value
lies in the window, no decimal with a greater exponent does, and among those with the same exponent
that do, it is the nearest to the value.

## The argument

Multiplied by `Binary.denominator`, value, window and grid become the natural numbers of
`Binary.grid`, so what is tested in natural numbers is what is meant (`Binary.holds_grid_iff`). The
window has no gaps and the value lies inside. So if any grid point lies in the window, the one
beside the value on the same side does too (`Grid.Proper.beside_of_holds`), and only two have to be
looked at. The search comes to an end because the value itself is a point of the last grid.
-/

namespace TreeDrawing.Decimal

/-! ## The points of a grid -/

namespace Grid

/-- Whether the value lies inside its window, and the points of the grid lie apart. -/
structure Proper (g : Grid) : Prop where
  low_lt : g.low < g.value
  lt_high : g.value < g.high
  unit_pos : 0 < g.unit

/-- How far a grid point is from the value. -/
def distance (g : Grid) (d : ℕ) : ℕ := ((d * g.unit : ℕ) - (g.value : ℤ)).natAbs

variable {g : Grid} {d d' : ℕ}

theorem holds_iff : g.holds d = true ↔
    if g.closed then g.low ≤ d * g.unit ∧ d * g.unit ≤ g.high
    else g.low < d * g.unit ∧ d * g.unit < g.high := by
  unfold holds
  split <;> simp

/-- Going up towards the value does not leave the window. -/
theorem Proper.holds_of_le (hg : g.Proper) (h : g.holds d = true) (hle : d ≤ d')
    (hvalue : d' * g.unit ≤ g.value) : g.holds d' = true := by
  have hmono : d * g.unit ≤ d' * g.unit := Nat.mul_le_mul_right g.unit hle
  rw [holds_iff] at h ⊢
  by_cases hclosed : g.closed = true
  · rw [if_pos hclosed] at h ⊢
    exact ⟨h.1.trans hmono, hvalue.trans hg.lt_high.le⟩
  · rw [if_neg hclosed] at h ⊢
    exact ⟨h.1.trans_le hmono, hvalue.trans_lt hg.lt_high⟩

/-- Going down towards the value does not leave the window. -/
theorem Proper.holds_of_ge (hg : g.Proper) (h : g.holds d = true) (hle : d' ≤ d)
    (hvalue : g.value ≤ d' * g.unit) : g.holds d' = true := by
  have hmono : d' * g.unit ≤ d * g.unit := Nat.mul_le_mul_right g.unit hle
  rw [holds_iff] at h ⊢
  by_cases hclosed : g.closed = true
  · rw [if_pos hclosed] at h ⊢
    exact ⟨hg.low_lt.le.trans hvalue, hmono.trans h.2⟩
  · rw [if_neg hclosed] at h ⊢
    exact ⟨hg.low_lt.trans_le hvalue, hmono.trans_lt h.2⟩

/-! ## The two points beside the value -/

theorem div_mul_unit_le (g : Grid) : g.value / g.unit * g.unit ≤ g.value :=
  Nat.div_mul_le_self g.value g.unit

theorem Proper.lt_succ_mul_unit (hg : g.Proper) : g.value < (g.value / g.unit + 1) * g.unit := by
  rw [Nat.mul_comm]
  exact Nat.lt_mul_div_succ g.value hg.unit_pos

/-- With any point in the window, the point beside the value on the same side lies there too, and is
as near to the value or nearer. -/
theorem Proper.beside_of_holds (hg : g.Proper) (h : g.holds d = true) :
    g.holds (g.value / g.unit) = true ∧ g.distance (g.value / g.unit) ≤ g.distance d ∨
      g.holds (g.value / g.unit + 1) = true ∧
        g.distance (g.value / g.unit + 1) ≤ g.distance d := by
  have hle := g.div_mul_unit_le
  have hlt := hg.lt_succ_mul_unit
  by_cases hd : d ≤ g.value / g.unit
  · have hmono : d * g.unit ≤ g.value / g.unit * g.unit := Nat.mul_le_mul_right g.unit hd
    refine .inl ⟨hg.holds_of_le h hd hle, ?_⟩
    unfold distance
    omega
  · rw [Nat.not_le] at hd
    have hmono : (g.value / g.unit + 1) * g.unit ≤ d * g.unit := Nat.mul_le_mul_right g.unit hd
    refine .inr ⟨hg.holds_of_ge h hd hlt.le, ?_⟩
    unfold distance
    omega

/-- Of the two points beside the value the nearer one is taken. -/
theorem Proper.distance_nearest_le (hg : g.Proper) :
    g.distance g.nearest ≤ g.distance (g.value / g.unit) ∧
      g.distance g.nearest ≤ g.distance (g.value / g.unit + 1) := by
  have hle := g.div_mul_unit_le
  have hlt := hg.lt_succ_mul_unit
  have hmiddle : (2 * (g.value / g.unit) + 1) * g.unit =
      g.value / g.unit * g.unit + (g.value / g.unit + 1) * g.unit := by ring
  unfold nearest
  dsimp only
  rw [hmiddle]
  split
  · next h =>
    rw [Nat.compare_eq_lt] at h
    unfold distance
    omega
  · next h =>
    rw [Nat.compare_eq_gt] at h
    unfold distance
    omega
  · next h =>
    rw [Nat.compare_eq_eq] at h
    split <;> unfold distance <;> omega

theorem nearest_eq (g : Grid) :
    g.nearest = g.value / g.unit ∨ g.nearest = g.value / g.unit + 1 := by
  unfold nearest
  dsimp only
  split
  · exact .inl rfl
  · exact .inr rfl
  · split
    · exact .inl rfl
    · exact .inr rfl

/-- Nothing is picked only if the grid has no point in the window. -/
theorem Proper.pick?_eq_none_iff (hg : g.Proper) :
    g.pick? = none ↔ ∀ d, g.holds d = false := by
  constructor
  · intro h d
    by_contra hd
    rw [Bool.not_eq_false] at hd
    unfold pick? at h
    obtain ⟨hbeside, -⟩ | ⟨hbeside, -⟩ := hg.beside_of_holds hd <;> grind
  · intro h
    simp [pick?, h]

/-- The point that is picked lies in the window, and no other point there is nearer to the value. -/
theorem Proper.pick?_eq_some (hg : g.Proper) (h : g.pick? = some d) :
    g.holds d = true ∧ ∀ d', g.holds d' = true → g.distance d ≤ g.distance d' := by
  unfold pick? at h
  dsimp only at h
  split at h
  · next hbelow habove =>
    obtain rfl := Option.some.inj h
    refine ⟨?_, fun d' hd' ↦ ?_⟩
    · rcases g.nearest_eq with hn | hn <;> rw [hn] <;> assumption
    · obtain ⟨hnb, hna⟩ := hg.distance_nearest_le
      rcases hg.beside_of_holds hd' with ⟨-, hle⟩ | ⟨-, hle⟩
      · exact hnb.trans hle
      · exact hna.trans hle
  · next hbelow habove =>
    obtain rfl := Option.some.inj h
    refine ⟨hbelow, fun d' hd' ↦ ?_⟩
    rcases hg.beside_of_holds hd' with ⟨-, hle⟩ | ⟨hholds, -⟩
    · exact hle
    · simp [habove] at hholds
  · next hbelow habove =>
    obtain rfl := Option.some.inj h
    refine ⟨habove, fun d' hd' ↦ ?_⟩
    rcases hg.beside_of_holds hd' with ⟨hholds, -⟩ | ⟨-, hle⟩
    · simp [hbelow] at hholds
    · exact hle
  · exact nomatch h

end Grid

/-! ## Values and windows -/

/-- The number that a decimal stands for. -/
def Scaled.toRat (d : Scaled) : ℚ := d.coefficient * 10 ^ d.exponent

namespace Binary

/-- The value as a number. -/
def toRat (x : Binary) : ℚ := x.significand * 2 ^ x.exponent

/-- Half way to the next value below. -/
def low (x : Binary) : ℚ := x.toRat - (if x.narrowBelow then 1 / 4 else 1 / 2) * 2 ^ x.exponent

/-- Half way to the next value above. -/
def high (x : Binary) : ℚ := x.toRat + 1 / 2 * 2 ^ x.exponent

/-- Whether a number rounds to the value. Half way it does if the significand is even. -/
def Window (x : Binary) (r : ℚ) : Prop :=
  if x.significand % 2 = 0 then x.low ≤ r ∧ r ≤ x.high else x.low < r ∧ r < x.high

/-- Whether a decimal rounds to the value, no decimal with a greater exponent does, and none that
does with the same exponent is nearer to the value. -/
structure IsShortest (x : Binary) (s : Scaled) : Prop where
  window : x.Window s.toRat
  not_window : ∀ (e : ℤ) (d : ℕ), s.exponent < e → ¬x.Window (d * 10 ^ e)
  nearest : ∀ d : ℕ, x.Window (d * 10 ^ s.exponent) →
    |s.toRat - x.toRat| ≤ |d * 10 ^ s.exponent - x.toRat|

/-- Whether a value is positive and within the range of the 64-bit format. -/
structure InRange (x : Binary) : Prop where
  significand_pos : 0 < x.significand
  significand_lt : x.significand < 2 ^ 53
  le_exponent : -1074 ≤ x.exponent
  exponent_le : x.exponent ≤ 971

variable {x : Binary}

theorem low_lt_toRat (x : Binary) : x.low < x.toRat := by
  have hpos : (0 : ℚ) < (if x.narrowBelow then 1 / 4 else 1 / 2) * 2 ^ x.exponent := by
    split <;> positivity
  unfold low
  linarith

theorem toRat_lt_high (x : Binary) : x.toRat < x.high := by
  have hpos : (0 : ℚ) < 1 / 2 * 2 ^ x.exponent := by positivity
  unfold high
  linarith

theorem window_toRat (x : Binary) : x.Window x.toRat := by
  have hlow := x.low_lt_toRat
  have hhigh := x.toRat_lt_high
  unfold Window
  split
  · exact ⟨hlow.le, hhigh.le⟩
  · exact ⟨hlow, hhigh⟩

theorem low_pos (hx : 0 < x.significand) : 0 < x.low := by
  have hone : (1 : ℚ) ≤ x.significand := by exact_mod_cast hx
  have hpow : (0 : ℚ) < 2 ^ x.exponent := by positivity
  unfold low toRat
  split <;> nlinarith

/-! ## Grids -/

/-- What value, window and grid are multiplied by to become natural numbers. -/
def denominator (x : Binary) (e : ℤ) : ℚ := 4 * 2 ^ (-x.exponent).toNat * 10 ^ (-e).toNat

theorem denominator_pos (x : Binary) (e : ℤ) : 0 < x.denominator e := by
  unfold denominator
  positivity

private theorem zpow_mul_pow_toNat {a : ℚ} (ha : a ≠ 0) (n : ℤ) :
    a ^ n * a ^ (-n).toNat = a ^ n.toNat := by
  rw [← zpow_natCast, ← zpow_natCast, ← zpow_add₀ ha]
  congr 1
  omega

theorem scale_eq (x : Binary) (e : ℤ) :
    (2 : ℚ) ^ x.exponent * x.denominator e = 4 * (2 ^ x.exponent.toNat * 10 ^ (-e).toNat) := by
  have htwo := zpow_mul_pow_toNat (two_ne_zero (α := ℚ)) x.exponent
  unfold denominator
  rw [← htwo]
  ring

theorem unit_grid (x : Binary) (e : ℤ) : ((x.grid e).unit : ℚ) = 10 ^ e * x.denominator e := by
  have hten := zpow_mul_pow_toNat (by norm_num : (10 : ℚ) ≠ 0) e
  simp only [grid, denominator, Nat.pow_eq]
  push_cast
  rw [← hten]
  ring

theorem value_grid (x : Binary) (e : ℤ) :
    ((x.grid e).value : ℚ) = x.toRat * x.denominator e := by
  rw [toRat, mul_assoc, x.scale_eq]
  simp only [grid, Nat.pow_eq]
  push_cast
  ring

theorem high_grid (x : Binary) (e : ℤ) : ((x.grid e).high : ℚ) = x.high * x.denominator e := by
  have hscale := x.scale_eq e
  rw [high, add_mul, mul_assoc, hscale, ← x.value_grid]
  simp only [grid, Nat.pow_eq]
  push_cast
  ring

theorem low_grid (hx : 0 < x.significand) (e : ℤ) :
    ((x.grid e).low : ℚ) = x.low * x.denominator e := by
  have hscale := x.scale_eq e
  rw [low, sub_mul, mul_assoc, hscale, ← x.value_grid]
  simp only [grid, Nat.pow_eq]
  split
  · rw [Nat.cast_mul, Nat.cast_sub (by omega)]
    push_cast
    ring
  · rw [Nat.cast_mul, Nat.cast_sub (by omega)]
    push_cast
    ring

theorem proper_grid (hx : 0 < x.significand) (e : ℤ) : (x.grid e).Proper := by
  have hpos := x.denominator_pos e
  constructor
  · rw [← Nat.cast_lt (α := ℚ), low_grid hx, value_grid]
    exact mul_lt_mul_of_pos_right x.low_lt_toRat hpos
  · rw [← Nat.cast_lt (α := ℚ), high_grid, value_grid]
    exact mul_lt_mul_of_pos_right x.toRat_lt_high hpos
  · rw [← Nat.cast_pos (α := ℚ), unit_grid]
    positivity

/-- What is tested is whether the grid point rounds to the value. -/
theorem holds_grid_iff (hx : 0 < x.significand) {e : ℤ} {d : ℕ} :
    (x.grid e).holds d = true ↔ x.Window (d * 10 ^ e) := by
  have hpos := x.denominator_pos e
  have hpoint : ((d * (x.grid e).unit : ℕ) : ℚ) = d * 10 ^ e * x.denominator e := by
    rw [Nat.cast_mul, unit_grid, mul_assoc]
  have hclosed : (x.grid e).closed = true ↔ x.significand % 2 = 0 := decide_eq_true_iff
  rw [Grid.holds_iff, Window]
  simp only [hclosed, ← Nat.cast_le (α := ℚ), ← Nat.cast_lt (α := ℚ), hpoint, low_grid hx,
    high_grid, mul_le_mul_iff_left₀ hpos, mul_lt_mul_iff_left₀ hpos]

/-- Which of two grid points is nearer can be seen in natural numbers. -/
theorem distance_grid (x : Binary) (e : ℤ) (d : ℕ) :
    ((x.grid e).distance d : ℚ) = |d * 10 ^ e - x.toRat| * x.denominator e := by
  rw [Grid.distance, Nat.cast_natAbs, Int.cast_abs, Int.cast_sub, Int.cast_natCast,
    Int.cast_natCast, Nat.cast_mul, unit_grid, value_grid, ← mul_assoc, ← sub_mul, abs_mul,
    abs_of_pos (x.denominator_pos e)]

/-! ## The search -/

/-- The search stops at the first grid with a point in the window. -/
theorem exists_search_eq {n : ℕ} (h : ∃ k < n, (x.grid ((k : ℤ) - 1074)).pick? ≠ none) :
    ∃ k d : ℕ, x.search n = ⟨d, (k : ℤ) - 1074⟩ ∧ (x.grid ((k : ℤ) - 1074)).pick? = some d ∧
      ∀ j : ℕ, k < j → j < n → (x.grid ((j : ℤ) - 1074)).pick? = none := by
  induction n with
  | zero =>
    obtain ⟨k, hk, -⟩ := h
    exact absurd hk (Nat.not_lt_zero k)
  | succ n ih =>
    rw [search]
    cases hpick : (x.grid ((n : ℤ) - 1074)).pick? with
    | some d => exact ⟨n, d, rfl, hpick, fun j hj hj' ↦ absurd hj (by omega)⟩
    | none =>
      obtain ⟨k, hk, hsome⟩ := h
      have hne : k ≠ n := by
        rintro rfl
        exact hsome hpick
      obtain ⟨k, d, hsearch, hd, hcoarser⟩ := ih ⟨k, by omega, hsome⟩
      refine ⟨k, d, hsearch, hd, fun j hj hj' ↦ ?_⟩
      rcases Nat.lt_succ_iff_lt_or_eq.1 hj' with hlt | rfl
      · exact hcoarser j hj hlt
      · exact hpick

namespace InRange

variable (hx : x.InRange)

include hx

/-- The value is a point of the last grid. -/
theorem exists_mul_eq_toRat : ∃ d : ℕ, d * (10 : ℚ) ^ (-1074 : ℤ) = x.toRat := by
  have hten : (10 : ℚ) ^ (-1074 : ℤ) = 2 ^ (-1074 : ℤ) * 5 ^ (-1074 : ℤ) := by
    rw [← mul_zpow]
    norm_num
  have htwo : (2 : ℚ) ^ (x.exponent + 1074).toNat * 2 ^ (-1074 : ℤ) = 2 ^ x.exponent := by
    have hle := hx.le_exponent
    rw [← zpow_natCast, ← zpow_add₀ two_ne_zero]
    congr 1
    omega
  have hfive : (5 : ℚ) ^ 1074 * 5 ^ (-1074 : ℤ) = 1 := by
    rw [← zpow_natCast, ← zpow_add₀ (by norm_num), Nat.cast_ofNat, add_neg_cancel, zpow_zero]
  refine ⟨x.significand * 2 ^ (x.exponent + 1074).toNat * 5 ^ 1074, ?_⟩
  rw [toRat, ← htwo, hten, Nat.cast_mul, Nat.cast_mul, Nat.cast_pow, Nat.cast_pow, Nat.cast_ofNat,
    Nat.cast_ofNat, mul_mul_mul_comm, hfive, mul_one, mul_assoc]

theorem pick?_last_ne_none : (x.grid (((0 : ℕ) : ℤ) - 1074)).pick? ≠ none := by
  obtain ⟨d, hd⟩ := hx.exists_mul_eq_toRat
  have hholds : (x.grid (-1074)).holds d = true := by
    rw [holds_grid_iff hx.significand_pos, hd]
    exact x.window_toRat
  intro h
  rw [(proper_grid hx.significand_pos _).pick?_eq_none_iff] at h
  exact Bool.false_ne_true ((h d).symm.trans hholds)

/-- No value reaches `10 ^ 309`. -/
theorem high_lt : x.high < 10 ^ 309 := by
  have hsignificand : (x.significand : ℚ) + 1 ≤ 2 ^ 53 := by exact_mod_cast hx.significand_lt
  have hpow : (2 : ℚ) ^ x.exponent ≤ 2 ^ (971 : ℤ) :=
    zpow_le_zpow_right₀ one_le_two hx.exponent_le
  have hlt : (2 : ℚ) ^ 53 * 2 ^ 971 < 10 ^ 309 := by
    exact_mod_cast (by decide +kernel : 2 ^ 53 * 2 ^ 971 < 10 ^ 309)
  calc x.high = (x.significand + 1 / 2) * 2 ^ x.exponent := by rw [high, toRat]; ring
    _ ≤ 2 ^ 53 * 2 ^ x.exponent := by gcongr; linarith
    _ ≤ 2 ^ 53 * 2 ^ (971 : ℤ) := by gcongr
    _ < 10 ^ 309 := by exact_mod_cast hlt

/-- The grids with which the search does not begin have no point in the window. -/
theorem not_window_of_lt {e : ℤ} (he : 309 < e) (d : ℕ) : ¬x.Window (d * 10 ^ e) := by
  intro h
  have hbounds : x.low ≤ d * 10 ^ e ∧ d * 10 ^ e ≤ x.high := by
    unfold Window at h
    split at h
    · exact h
    · exact ⟨h.1.le, h.2.le⟩
  have hpow : (10 : ℚ) ^ 309 ≤ 10 ^ e := by
    rw [← zpow_natCast]
    exact zpow_le_zpow_right₀ (by norm_num) he.le
  rcases Nat.eq_zero_or_pos d with rfl | hd
  · have hlow := low_pos hx.significand_pos
    rw [Nat.cast_zero, zero_mul] at hbounds
    exact absurd hbounds.1 (not_le.2 hlow)
  · have hone : (1 : ℚ) ≤ d := by exact_mod_cast hd
    have hhigh := hx.high_lt
    have hle : (10 : ℚ) ^ e ≤ d * 10 ^ e := le_mul_of_one_le_left (by positivity) hone
    exact absurd (hpow.trans (hle.trans hbounds.2)) (not_le.2 hhigh)

end InRange

/-- **Shortest decimals.** What the search finds for a value is a shortest decimal for it. -/
theorem InRange.isShortest_shortest (hx : x.InRange) : x.IsShortest x.shortest := by
  have hpos := hx.significand_pos
  obtain ⟨k, d, hsearch, hpick, hcoarser⟩ :=
    exists_search_eq (n := 309 + 1075) ⟨0, by omega, hx.pick?_last_ne_none⟩
  obtain ⟨hholds, hnearest⟩ := (proper_grid hpos _).pick?_eq_some hpick
  have hshortest : x.shortest = ⟨d, (k : ℤ) - 1074⟩ := hsearch
  rw [hshortest]
  refine ⟨(holds_grid_iff hpos).1 hholds, fun e d' he ↦ ?_, fun d' hd' ↦ ?_⟩
  · dsimp only at he
    rcases le_or_gt e 309 with hle | hlt
    · obtain ⟨j, rfl⟩ : ∃ j : ℕ, e = j - 1074 := ⟨(e + 1074).toNat, by omega⟩
      have hnone := hcoarser j (by omega) (by omega)
      rw [(proper_grid hpos _).pick?_eq_none_iff] at hnone
      rw [← holds_grid_iff hpos, hnone]
      exact Bool.false_ne_true
    · exact hx.not_window_of_lt hlt d'
  · have hle := hnearest d' ((holds_grid_iff hpos).2 hd')
    rw [← Nat.cast_le (α := ℚ), distance_grid, distance_grid] at hle
    exact le_of_mul_le_mul_right hle (x.denominator_pos _)

/-- The smallest positive value of the format. Both `3 · 10 ^ (-324)` and `7 · 10 ^ (-324)` round to
it, but are further away. -/
example : (⟨1, -1074, false⟩ : Binary).shortest = ⟨5, -324⟩ := by decide +kernel

/-- A power of two, below which the window reaches only half as far as above. -/
example : (⟨2 ^ 52, 971, true⟩ : Binary).shortest = ⟨898846567431158, 293⟩ := by decide +kernel

end Binary

/-! ## Numbers of the format -/

/-- Every number of the format is in range, except for zero, the infinities and what is not a
number. -/
theorem Binary.inRange_ofFloat {y : Float} (hfinite : y.toBits.toNat / 2 ^ 52 % 2 ^ 11 ≠ 2047)
    (hpos : 0 < (Binary.ofFloat y).significand) : (Binary.ofFloat y).InRange := by
  revert hpos
  unfold ofFloat
  simp only [Nat.pow_eq]
  split
  · intro hpos
    constructor <;> dsimp only at hpos ⊢ <;> omega
  · intro hpos
    constructor <;> dsimp only at hpos ⊢ <;> omega

/-- So the decimal that stands for such a number is a shortest one. -/
theorem Signed.isShortest_magnitude_ofFloat {y : Float}
    (hfinite : y.toBits.toNat / 2 ^ 52 % 2 ^ 11 ≠ 2047)
    (hpos : 0 < (Binary.ofFloat y).significand) :
    (Binary.ofFloat y).IsShortest (ofFloat y).magnitude := by
  have hmagnitude : (ofFloat y).magnitude = (Binary.ofFloat y).shortest := if_neg hpos.ne'
  rw [hmagnitude]
  exact (Binary.inRange_ofFloat hfinite hpos).isShortest_shortest

end TreeDrawing.Decimal
