import LexChain.Text.Index

/-!
# `LexChain.Decimal`: digits and where the point stands

A positive decimal number is a string of digits and the place of the point,
counted from the front of the digits. Near one it is laid out with all its
places (`Decimal.positional`), far from one with a single digit before the point
and an exponent of ten (`Decimal.scientific`).
-/

set_option autoImplicit false

namespace LexChain

/-- The number `0.d₁d₂… * 10 ^ point`. -/
structure Decimal where
  digits : Text
  point : Int

namespace Decimal

/-- The digits of an integer. -/
def digitsOf (n : Nat) : Text := Nat.toDigits 10 n

/-- An integer times a power of ten, without zeros at the end. -/
def ofScaled (n : Nat) (e : Int) : Decimal where
  digits := ((digitsOf n).reverse.dropWhile (· == '0')).reverse
  point := (digitsOf n).length + e

/-- Digits after a point, at least one of them. -/
def places (ds : Text) : Text := '.' :: if ds.isEmpty then ['0'] else ds

/-- All places written out. -/
def positional (x : Decimal) : Text :=
  if x.point ≤ 0 then '0' :: places (List.replicate (-x.point).toNat '0' ++ x.digits)
  else
    let width := x.point.toNat
    x.digits.take width ++ List.replicate (width - x.digits.length) '0' ++
      places (x.digits.drop width)

/-- An exponent of ten: a sign and at least two digits. -/
def exponentText (e : Int) : Text :=
  let ds := digitsOf e.natAbs
  (if e < 0 then '-' else '+') :: (List.replicate (2 - ds.length) '0' ++ ds)

/-- One digit before the point, and an exponent. -/
def scientific (x : Decimal) : Text :=
  let rest := x.digits.drop 1
  x.digits.take 1 ++ (if rest.isEmpty then [] else places rest) ++
    'e' :: exponentText (x.point - 1)

/-- The written form: positional from a ten-thousandth up to sixteen digits
before the point. -/
def layout (x : Decimal) : Text :=
  if -3 ≤ x.point ∧ x.point ≤ 16 then x.positional else x.scientific

end Decimal

end LexChain
