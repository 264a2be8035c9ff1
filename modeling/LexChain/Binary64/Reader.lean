import LexChain.Binary64
import LexChain.Text.Blank
import LexChain.Text.Digit
import LexChain.Text.Index

/-!
# `LexChain.Binary64.Reader`: numbers read from their text

A number is written with a sign or without, as digits with a point before,
among, after or not at all, and then an exponent of ten or none; bars may join
two digits, and blanks may stand around the whole. The digits may be of any
script and of several at once; signs, points, bars and letters are the common
ones. The other numbers have names, in letters of either case.
`Binary64.ofText?` reads the nearest number, or `none` where the text is not of
this form.
-/

set_option autoImplicit false

namespace LexChain.Binary64

/-! ### Parts of the text -/

/-- Whether a character may stand around a number: the blanks may, but not the
four control characters that separate records. -/
def isMargin (c : Char) : Bool :=
  Text.isBlank c && !(0x1C ≤ c.toNat && c.toNat ≤ 0x1F)

/-- A text without the blanks around it. -/
def trim (s : Text) : Text :=
  ((s.dropWhile isMargin).reverse.dropWhile isMargin).reverse

/-- A text without the bars between two digits, or `none` if there is any other
bar. The character in front of the text is given first. -/
def unjoin? (before : Char) : Text → Option Text
  | [] => if before == '_' then none else some []
  | c :: s =>
    if c == '_' then if before.isDigit then unjoin? c s else none
    else if before == '_' && !c.isDigit then none
    else (unjoin? c s).map (c :: ·)

/-- Whether there is a minus sign in front, and what follows the sign. -/
def splitSign : Text → Bool × Text
  | '-' :: s => (true, s)
  | '+' :: s => (false, s)
  | s => (false, s)

/-- The integer that a string of digits denotes. -/
def ofDigits (ds : Text) : Nat :=
  ds.foldl (fun n c => 10 * n + (c.toNat - '0'.toNat)) 0

/-- The exponent of ten in what follows the digits of a number. -/
def exponent? : Text → Option Int
  | [] => some 0
  | c :: s =>
    let (negative, ds) := splitSign s
    if !(c == 'e' || c == 'E') || ds.isEmpty || !ds.all Char.isDigit then none
    else some (if negative then -(ofDigits ds : Int) else ofDigits ds)

/-! ### The number -/

/-- The number nearest to an integer, given by its digits, times a power of
ten. -/
def ofScientific (negative : Bool) (ds : Text) (e : Int) : Binary64 :=
  let ds := ds.dropWhile (· == '0')
  -- The value lies below this power of ten, and not below the one before it.
  let reach := ds.length + e
  if ds.isEmpty || reach < -330 then zero negative
  else if 310 < reach then infinite negative
  else ofRatio negative (ofDigits ds * Nat.pow 10 e.toNat) (Nat.pow 10 (-e).toNat)

/-- The number that digits with a point and an exponent denote. -/
def ofMagnitude? (negative : Bool) (s : Text) : Option Binary64 :=
  let whole := s.takeWhile Char.isDigit
  let (places, rest) := match s.dropWhile Char.isDigit with
    | '.' :: rest => (rest.takeWhile Char.isDigit, rest.dropWhile Char.isDigit)
    | rest => ([], rest)
  if whole.isEmpty && places.isEmpty then none
  else (exponent? rest).map fun e =>
    ofScientific negative (whole ++ places) (e - places.length)

/-- The number that a text denotes. -/
def ofText? (s : Text) : Option Binary64 := do
  let (negative, s) := splitSign (← unjoin? ' ' (trim (s.map Text.plainDigit)))
  let name := s.map Char.toLower
  if name == "inf".toList || name == "infinity".toList then return infinite negative
  else if name == "nan".toList then return undefined
  else ofMagnitude? negative s

end LexChain.Binary64
