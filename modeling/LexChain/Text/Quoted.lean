import LexChain.Text.Index
import LexChain.Text.Printable

/-!
# `LexChain.Text.Quoted`: a text between quotation marks

The written form of a text stands between two equal marks: the single one,
unless the text holds a single mark and no double one. Inside, the mark in use
and the backslash get a backslash in front, tab, line feed and carriage return
have a letter each, any other unprintable character is written by its number in
two, four or eight hexadecimal digits, and all else stands for itself. So the
written form is one line of printable characters.
-/

set_option autoImplicit false

namespace LexChain.Text.Quoted

/-- The lowest `width` hexadecimal digits of a number, in lower case. -/
def hex : Nat → Nat → Text
  | 0, _ => []
  | width + 1, n => hex width (n / 16) ++ [Nat.digitChar (n % 16)]

/-- The mark that stands around a text. -/
def markFor (s : Text) : Char :=
  if '\'' ∈ s ∧ '"' ∉ s then '"' else '\''

/-- One character between two marks. -/
def encodeChar (mark c : Char) : Text :=
  if c = mark ∨ c = '\\' then ['\\', c]
  else if c = '\t' then ['\\', 't']
  else if c = '\n' then ['\\', 'n']
  else if c = '\r' then ['\\', 'r']
  else if isPrintable c then [c]
  else if c.toNat < 0x100 then '\\' :: 'x' :: hex 2 c.toNat
  else if c.toNat < 0x10000 then '\\' :: 'u' :: hex 4 c.toNat
  else '\\' :: 'U' :: hex 8 c.toNat

/-- The written form of a text. -/
def encode (s : Text) : Text :=
  markFor s :: s.flatMap (encodeChar (markFor s)) ++ [markFor s]

/-- The written form of a string. -/
def encodeString (s : String) : String :=
  String.ofList (encode s.toList)

end LexChain.Text.Quoted
