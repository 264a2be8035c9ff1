import LexChain.Binary64
import LexChain.Decimal

/-!
# `LexChain.Binary64.Shortest`: the fewest digits that read back

A floating-point number stands for all the reals that round to it. Its text is
the decimal with the fewest digits among these reals; of several with that many
digits it is the nearest to the number itself. The search goes through the grids
of one digit, two digits and so on. On each grid only the two neighbours of the
number can be the nearest, so these are tested, in exact arithmetic.
-/

set_option autoImplicit false

namespace LexChain.Binary64

/-- The least power of ten above `m * 2 ^ e`, by its exponent. -/
def decimalPoint (m : Nat) (e : Int) : Int :=
  let (num, den) := scaledDown m 1 (-e)
  if den ≤ num then (Decimal.digitsOf (num / den)).length
  else 1 - ((Decimal.digitsOf ((den - 1) / num)).length : Int)

/-- The multiple of `10 ^ g` nearest to `m * 2 ^ e` that still rounds to it, by
its factor, if there is one. -/
def nearestOn? (m : Nat) (e g : Int) : Option Nat :=
  -- A quarter of the last binary place and a step of the grid, in one unit.
  let quarter := Nat.pow 10 (-g).toNat <<< (e - 2).toNat
  let step := Nat.pow 10 g.toNat <<< (2 - e).toNat
  let value := 4 * m * quarter
  -- Below a power of two the neighbours are twice as close.
  let low := value - (if m = leading ∧ lowest < e then 1 else 2) * quarter
  let high := value + 2 * quarter
  let reads (x : Nat) : Bool :=
    if m % 2 = 0 then low ≤ x && x ≤ high else low < x && x < high
  let d := value / step
  let down := value - d * step
  let up := (d + 1) * step - value
  match reads (d * step), reads ((d + 1) * step) with
  | true, true =>
    if down < up then some d else if up < down then some (d + 1) else some (d + d % 2)
  | true, false => some d
  | false, true => some (d + 1)
  | false, false => none

/-- The decimal of a number of digits that is nearest to `m * 2 ^ e` and rounds to
it, if there is one. -/
def ofDigitCount? (m : Nat) (e : Int) (count : Nat) : Option Decimal :=
  let g := decimalPoint m e - count
  (nearestOn? m e g).map (Decimal.ofScaled · g)

/-- The decimal of the fewest digits that rounds to `m * 2 ^ e`. Seventeen digits
always suffice. -/
def shortest (m : Nat) (e : Int) : Decimal :=
  ((List.range' 1 17).findSome? (ofDigitCount? m e)).getD ⟨[], decimalPoint m e⟩

/-- The text of a number. -/
def toText : Binary64 → Text
  | finite negative m e =>
    (if negative then ['-'] else []) ++
      if m = 0 then "0.0".toList else (shortest m e).layout
  | infinite negative => if negative then "-inf".toList else "inf".toList
  | undefined => "nan".toList

end LexChain.Binary64
