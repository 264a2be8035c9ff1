/-!
# `LexChain.Number`: numbers compared by value

Integers of any size and binary floating-point numbers have one notion of
equality: a finite number is an integer times a power of two, and two of them
are the same when the products are, however they are written. So `1` is the
same as `1.0`, and zero has no sign. An infinity is the same as itself only,
and an undefined number is the same as nothing.
-/

set_option autoImplicit false

namespace LexChain

/-- A number by its value. -/
inductive Number where
  /-- The number `m * 2 ^ e`. -/
  | finite (m e : Int)
  | infinite (negative : Bool)
  | undefined
  deriving DecidableEq

namespace Number

/-- An integer. -/
def ofInt (n : Int) : Number := finite n 0

/-- An integer times two to the power of `n`. -/
def scaled (m : Int) (n : Nat) : Int := m * (1 <<< n : Nat)

/-- Whether two numbers have the same value. Finite ones are brought to the
smaller of their exponents. -/
def same : Number → Number → Bool
  | finite m e, finite n f =>
    scaled m (e - min e f).toNat == scaled n (f - min e f).toNat
  | infinite a, infinite b => a == b
  | _, _ => false

/-- Whether a number is zero. -/
def isZero : Number → Bool
  | finite m _ => m == 0
  | _ => false

/-- Two integers have the same value only if they are equal. -/
theorem same_ofInt (m n : Int) : (ofInt m).same (ofInt n) = decide (m = n) := by
  by_cases h : m = n <;> simp [ofInt, same, scaled, h]

end Number

end LexChain
