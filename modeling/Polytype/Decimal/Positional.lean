import Polytype.Decimal.Shortest

/-!
# Number text

A number is written with the fewest digits that read back as the same double, all of them in place:
no exponent, no digits after the point of a whole number, and a sign before every negative number,
zero included.
-/

namespace Polytype.Decimal

/-- The digits in place, with a point where there are digits behind it. -/
def text (d : Decimal) : String :=
  let all := Nat.toDigits 10 d.digits
  let zeros := (all.reverse.takeWhile (· == '0')).length
  let digits := all.take (all.length - zeros)
  let exponent := d.exponent + zeros
  let places := (-exponent).toNat
  String.ofList <|
    if 0 ≤ exponent then digits ++ List.replicate exponent.toNat '0'
    else if places < digits.length then
      digits.take (digits.length - places) ++ '.' :: digits.drop (digits.length - places)
    else '0' :: '.' :: List.replicate (places - digits.length) '0' ++ digits

/-- The fields of a double. -/
structure Fields where
  negative : Bool
  exponent : Nat
  fraction : Nat

namespace Fields

def ofFloat (x : Float) : Fields :=
  let bits := x.toBits.toNat
  ⟨Nat.pow 2 63 ≤ bits, bits / Nat.pow 2 52 % Nat.pow 2 11, bits % Nat.pow 2 52⟩

/-- The size of a finite number other than zero. Below the smallest normal number the leading one is
missing. -/
def size (f : Fields) : Binary :=
  if f.exponent = 0 then ⟨f.fraction, -1074, false⟩
  else ⟨Nat.pow 2 52 + f.fraction, (f.exponent : Int) - 1075, f.fraction == 0 && 1 < f.exponent⟩

def sizeText (f : Fields) : String :=
  if f.exponent = 2047 then "inf"
  else if f.exponent = 0 && f.fraction = 0 then "0"
  else f.size.shortest.text

def text (f : Fields) : String :=
  if f.exponent = 2047 && f.fraction ≠ 0 then "NaN"
  else if f.negative then "-" ++ f.sizeText
  else f.sizeText

end Fields

def numberText (x : Float) : String := (Fields.ofFloat x).text

end Polytype.Decimal
