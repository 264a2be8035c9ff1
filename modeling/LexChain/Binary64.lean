import LexChain.Number

/-!
# `LexChain.Binary64`: floating-point numbers

A floating-point number of 64 bits is infinite, undefined, or a sign and an
integer of at most 53 bits times a power of two. The exponents go from `lowest`
to `highest`, and all 53 bits are in use unless the exponent is the lowest.
Zero has a sign too, which its value does not show.

`Binary64.ofRatio` rounds a quotient of integers to the nearest such number;
`roundDiv_le` and `le_roundDiv` say that a rounded quotient is off by one half
at most. All of it is arithmetic on integers.
-/

set_option autoImplicit false

namespace LexChain

/-- A floating-point number of 64 bits. -/
inductive Binary64 where
  /-- The number `m * 2 ^ e`, or its opposite. -/
  | finite (negative : Bool) (m : Nat) (e : Int)
  | infinite (negative : Bool)
  | undefined
  deriving DecidableEq, Repr

namespace Binary64

/-- The lowest exponent. -/
def lowest : Int := -1074

/-- The highest exponent. -/
def highest : Int := 971

/-- The smallest integer with one bit more than a number has. -/
def overfull : Nat := 1 <<< 53

/-- The smallest integer that uses all bits of a number. -/
def leading : Nat := 1 <<< 52

/-- Zero, of either sign. -/
def zero (negative : Bool) : Binary64 := finite negative 0 lowest

/-- What the number counts as. -/
def value : Binary64 → Number
  | finite negative m e => .finite (if negative then -(m : Int) else m) e
  | infinite negative => .infinite negative
  | undefined => .undefined

/-! ### Rounding -/

/-- The integer nearest to a quotient; of two that are equally near, the even
one. -/
def roundDiv (num den : Nat) : Nat :=
  if 2 * (num % den) < den then num / den
  else if den < 2 * (num % den) then num / den + 1
  else num / den + num / den % 2

/-- A quotient over a power of two, as a quotient. -/
def scaledDown (num den : Nat) (e : Int) : Nat × Nat :=
  (num <<< (-e).toNat, den <<< e.toNat)

/-- The exponent of the number nearest to a quotient: the least one at which the
integer part of what remains fits. -/
def exponentOf (num den : Nat) : Int :=
  -- The logarithms leave two exponents to choose from.
  let e := max ((num.log2 : Int) - den.log2 - 53) lowest
  let (n, d) := scaledDown num den e
  if n / d < overfull then e else e + 1

/-- The number nearest to a quotient; of two that are equally near, the one with
the even integer. Beyond the highest exponent it is infinite. -/
def ofRatio (negative : Bool) (num den : Nat) : Binary64 :=
  if num = 0 then zero negative
  else
    let e := exponentOf num den
    let (n, d) := scaledDown num den e
    let m := roundDiv n d
    -- Rounding up can take one bit too many.
    let (m, e) := if m = overfull then (leading, e + 1) else (m, e)
    if highest < e then infinite negative else finite negative m e

/-- A rounded quotient is too large by one half at most. -/
theorem roundDiv_le (num den : Nat) :
    2 * (den * roundDiv num den) ≤ 2 * num + den := by
  have h := Nat.div_add_mod num den
  unfold roundDiv
  split
  · omega
  · split
    · rw [Nat.mul_add]
      omega
    · rcases Nat.mod_two_eq_zero_or_one (num / den) with e | e <;>
        rw [e, Nat.mul_add] <;> omega

/-- A rounded quotient is too small by one half at most. -/
theorem le_roundDiv (num : Nat) {den : Nat} (hden : 0 < den) :
    2 * num ≤ 2 * (den * roundDiv num den) + den := by
  have h := Nat.div_add_mod num den
  have hlt := Nat.mod_lt num hden
  unfold roundDiv
  split
  · omega
  · split
    · rw [Nat.mul_add]
      omega
    · rcases Nat.mod_two_eq_zero_or_one (num / den) with e | e <;>
        rw [e, Nat.mul_add] <;> omega

end Binary64

end LexChain
