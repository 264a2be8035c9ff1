/-!
# `LexChain.Text.Index`: signed positions in a text

A text is a list of characters, and a position in it is an integer. A position
below zero counts back from the end. Four rules follow from that:

* `Text.bound` pulls a position into `0 .. length`, as the end of a range;
* `Text.slice` is the stretch between two such ends, empty when they are out of
  order;
* `Text.index?` is the ordinary position of a single item, if there is one;
* `Text.onward` is what one reads at `i`, `i + 1`, up to the last position. It is
  `none` when `i` lies before the text, even counted back from the end. From a
  negative `i` the reading first goes over the tail of the text and then over
  all of it.

`slice_of_le` and `onward_of_nonneg` say that between `0` and the length these
are the plain `take` and `drop`.
-/

set_option autoImplicit false

namespace LexChain

/-- A text is the list of its characters. -/
abbrev Text := List Char

namespace Text

/-- The end of a range: counted back from the length when negative, then pulled
into `0 .. length`. -/
def bound (length : Nat) (i : Int) : Nat :=
  if i < 0 then (i + length).toNat else min i.toNat length

/-- The characters from position `a` up to position `b`, `b` not included. -/
def slice (s : Text) (a b : Int) : Text :=
  (s.drop (bound s.length a)).take (bound s.length b - bound s.length a)

/-- The characters at positions `i`, `i + 1`, … up to the last one, or `none`
when there is no position `i`. -/
def onward (s : Text) (i : Int) : Option Text :=
  if 0 ≤ i then some (s.drop i.toNat)
  -- Counted back: the last `-i` characters, and then the whole text.
  else if -(s.length : Int) ≤ i then some (s.drop (i + s.length).toNat ++ s)
  else none

/-- The ordinary position that a signed one stands for among `length` items. -/
def index? (length : Nat) (i : Int) : Option Nat :=
  if i < -(length : Int) ∨ length ≤ i then none
  else some (if i < 0 then i + length else i).toNat

/-! ### Ordinary positions -/

/-- An end between `0` and the length is itself. -/
theorem bound_of_le {length : Nat} {i : Int} (h₀ : 0 ≤ i) (h₁ : i ≤ length) :
    bound length i = i.toNat := by
  unfold bound
  rw [if_neg (by omega)]
  omega

/-- Between ordinary ends a slice is what is left of a front part. -/
theorem slice_of_le {s : Text} {a b : Int} (ha : 0 ≤ a) (hab : a ≤ b)
    (hb : b ≤ s.length) :
    s.slice a b = (s.take b.toNat).drop a.toNat := by
  unfold slice
  rw [bound_of_le ha (by omega), bound_of_le (by omega) hb, List.drop_take]

/-- From an ordinary position one reads the rest of the text. -/
theorem onward_of_nonneg {s : Text} {i : Int} (h : 0 ≤ i) :
    s.onward i = some (s.drop i.toNat) := by
  unfold onward
  rw [if_pos h]

/-- There is nothing to read exactly when the position lies before the text. -/
theorem onward_eq_none_iff {s : Text} {i : Int} :
    s.onward i = none ↔ i < -(s.length : Int) := by
  unfold onward
  split
  · simp
    omega
  · split <;> simp <;> omega

/-- A reading that starts before the end goes over one character per position. -/
theorem length_of_onward {s r : Text} {i : Int} (h : s.onward i = some r)
    (hi : i ≤ s.length) : (r.length : Int) = s.length - i := by
  unfold onward at h
  split at h
  · cases h
    simp
    omega
  · split at h <;> cases h
    simp
    omega

end Text

end LexChain
