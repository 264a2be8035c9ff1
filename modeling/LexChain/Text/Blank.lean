/-!
# `LexChain.Text.Blank`: whitespace

The characters that separate words: the control characters from tab to carriage
return and from file to unit separator, and every character that Unicode calls
a space or a line or paragraph separator. `isBlank_of_isWhitespace` says that
the six characters of the core library's class are among them.
-/

set_option autoImplicit false

namespace LexChain.Text

/-- Whether a character is whitespace. -/
def isBlank (c : Char) : Bool :=
  let n := c.toNat
  (0x09 ≤ n && n ≤ 0x0D) || (0x1C ≤ n && n ≤ 0x20) || n == 0x85 || n == 0xA0 ||
    n == 0x1680 || (0x2000 ≤ n && n ≤ 0x200A) || n == 0x2028 || n == 0x2029 ||
    n == 0x202F || n == 0x205F || n == 0x3000

/-- The core library's whitespace is whitespace. -/
theorem isBlank_of_isWhitespace {c : Char} (h : c.isWhitespace = true) :
    isBlank c = true := by
  simp only [Char.isWhitespace, Bool.or_eq_true, decide_eq_true_eq] at h
  rcases h with ((rfl | rfl) | rfl) | rfl <;> rfl

end LexChain.Text
