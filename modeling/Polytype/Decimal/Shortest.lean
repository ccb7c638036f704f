/-!
# Shortest decimals

A double stands for every real number that rounds to it. `Binary.shortest` gives, among the
decimals in that interval, one with the fewest digits, and of those the one closest to the double.
Two that are equally close are above and below it, and the one above counts.

All comparisons are between natural numbers: `x * 2 ^ p` and `j * 10 ^ k` are scaled until neither
has a negative exponent.
-/

namespace Polytype

/-- The number `digits * 10 ^ exponent`. -/
structure Decimal where
  digits : Nat
  exponent : Int

namespace Decimal

/-- The positive number `mantissa * 2 ^ exponent`. At the bottom of a power of two the gap to the
next double below is half the gap to the one above. -/
structure Binary where
  mantissa : Nat
  exponent : Int
  bottom : Bool

/-- Where a number and the decimals `j * 10 ^ k` compare: `x` quarters of the last binary place are
`x * quarter`, and `j * 10 ^ k` is `j * unit`. -/
structure Grid where
  quarter : Nat
  unit : Nat

namespace Binary

/-- The number itself, in quarters of its last binary place. -/
def quarters (b : Binary) : Nat := 4 * b.mantissa

/-- The lower end of the interval, in quarters. -/
def low (b : Binary) : Nat := if b.bottom then b.quarters - 1 else b.quarters - 2

/-- The upper end of the interval, in quarters. -/
def high (b : Binary) : Nat := b.quarters + 2

def grid (b : Binary) (k : Int) : Grid where
  quarter := Nat.pow 2 (b.exponent - 2).toNat * Nat.pow 10 (-k).toNat
  unit := Nat.pow 2 (2 - b.exponent).toNat * Nat.pow 10 k.toNat

/-- Whether the `j`-th point of the grid rounds to `b`. The ends of the interval round to the even
mantissa. -/
def holds (b : Binary) (g : Grid) (j : Nat) : Bool :=
  if b.mantissa % 2 = 0 then b.low * g.quarter ≤ j * g.unit && j * g.unit ≤ b.high * g.quarter
  else b.low * g.quarter < j * g.unit && j * g.unit < b.high * g.quarter

/-- The better one of the grid's two points around `b`, if one of them rounds to `b`. -/
def nearest? (b : Binary) (k : Int) : Option Decimal :=
  let g := b.grid k
  let value := b.quarters * g.quarter
  let j := value / g.unit
  match b.holds g j, b.holds g (j + 1) with
  | false, false => none
  | true, false => some ⟨j, k⟩
  | false, true => some ⟨j + 1, k⟩
  | true, true => some (if 2 * value < (2 * j + 1) * g.unit then ⟨j, k⟩ else ⟨j + 1, k⟩)

/-- The exponent of the leading digit. -/
def leading (b : Binary) : Int :=
  let g := b.grid 0
  let value := b.quarters * g.quarter
  if g.unit ≤ value then (Nat.toDigits 10 (value / g.unit)).length - 1
  else -(Nat.toDigits 10 ((g.unit - 1) / value)).length

/-- Seventeen digits tell all doubles apart, so one of the grids has a point. -/
def shortest (b : Binary) : Decimal :=
  ((List.range 17).findSome? fun (n : Nat) => b.nearest? (b.leading - n)).getD ⟨0, 0⟩

end Binary

end Decimal

end Polytype
