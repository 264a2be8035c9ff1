import LexChain.Ini.States
import LexChain.Text.Blank
import LexChain.Token
import Mathlib.Algebra.Group.Nat.Defs

/-!
# `LexChain.Proofs.Quotation`: what the words for a token tell

Tokens are reported in words, with the lexeme as it is shown: cut to its front if it is long
(`Value.clip`), and between quotation marks. `token_words_tell_lexeme` says that nothing else is
lost. Under one label the words differ exactly when the lexemes are shown differently, and so two
lexemes are taken for one another only if one of them was cut, and they begin alike even then.

Behind it is a reader of written forms. It knows neither the text nor the mark that was chosen for
it: `Text.Quoted.readChar` takes one character off the front of what stands between the marks, where
a backslash and the letter behind it say how many digits are to follow, and
`Text.Quoted.decode_encode` says that this undoes the writing.

What stands behind the label's title can be put on a line of a log. It has printable characters only
(`Text.Quoted.isPrintable_of_mem_encode`), and among these there are no control characters and no
whitespace but the plain space.
-/

set_option autoImplicit false

namespace LexChain

/-! ### Reading a written form -/

namespace Text.Quoted

/-- The value of a hexadecimal digit. -/
def hexValue (c : Char) : Nat := if c.isDigit then c.toNat - '0'.toNat else c.toNat - 'a'.toNat + 10

/-- The number that hexadecimal digits stand for. -/
def ofHex (s : Text) : Nat := s.foldl (fun n c => 16 * n + hexValue c) 0

/-- How many hexadecimal digits belong to a letter behind a backslash. -/
def width : Char → Nat
  | 'x' => 2
  | 'u' => 4
  | 'U' => 8
  | _ => 0

/-- What a letter behind a backslash stands for when no digits belong to it. -/
def unescape : Char → Char
  | 't' => '\t'
  | 'n' => '\n'
  | 'r' => '\r'
  | c => c

/-- The character that a text between marks begins with, and what is left of the text. -/
def readChar : Text → Option (Char × Text)
  | '\\' :: c :: s =>
    if width c = 0 then some (unescape c, s)
    else if width c ≤ s.length then
      some (Char.ofNat (ofHex (s.take (width c))), s.drop (width c))
    else none
  | ['\\'] | [] => none
  | c :: s => some (c, s)

/-- To read a character takes something from the text. -/
theorem length_lt_of_readChar {s r : Text} {c : Char} (h : readChar s = some (c, r)) :
    r.length < s.length := by
  unfold readChar at h
  -- An escape is read as a whole, so at least the backslash is gone. All other characters are
  -- one each.
  split at h
  · split at h
    · simp only [Option.some.injEq, Prod.mk.injEq] at h
      rw [← h.2, List.length_cons, List.length_cons]
      omega
    · split at h
      · simp only [Option.some.injEq, Prod.mk.injEq] at h
        rw [← h.2, List.length_drop, List.length_cons, List.length_cons]
        omega
      · cases h
  · cases h
  · cases h
  · simp only [Option.some.injEq, Prod.mk.injEq] at h
    rw [← h.2, List.length_cons]
    exact Nat.lt_succ_self _

/-- A text between marks, character by character. -/
def readText (s : Text) : Option Text :=
  if s = [] then some []
  else match _ : readChar s with
    | none => none
    | some (c, r) => (readText r).map (c :: ·)
  termination_by s.length
  decreasing_by exact length_lt_of_readChar ‹_›

/-- A text is read character by character. -/
theorem readText_of_readChar {s r : Text} {c : Char} (h : readChar s = some (c, r)) :
    readText s = (readText r).map (c :: ·) := by
  rw [readText]
  split
  · next hs =>
      rw [hs] at h
      cases h
  · split
    · next hnone => simp [h] at hnone
    · next hsome =>
        rw [h] at hsome
        cases hsome
        rfl

/-- The text that a written form stands for. -/
def decode (s : Text) : Option Text := readText (s.drop 1).dropLast

/-- A hexadecimal digit has its value. -/
theorem hexValue_digitChar : ∀ n < 16, hexValue (Nat.digitChar n) = n := by decide

/-- Digits are read back as the number that they were written for, if there are enough. -/
theorem ofHex_hex {width n : Nat} (h : n < 16 ^ width) : ofHex (hex width n) = n := by
  induction width generalizing n with
  | zero =>
      obtain rfl : n = 0 := by omega
      rfl
  | succ width ih =>
      -- The last digit is the remainder, and the ones before it are the digits of the quotient.
      have hhigh : n / 16 < 16 ^ width := by
        rw [Nat.pow_succ] at h
        omega
      have hread := ih hhigh
      unfold ofHex at hread ⊢
      rw [hex, List.foldl_append, hread]
      simp only [List.foldl_cons, List.foldl_nil]
      rw [hexValue_digitChar _ (Nat.mod_lt _ (by decide))]
      omega

/-- There are as many digits as asked for. -/
@[simp] theorem length_hex (width n : Nat) : (hex width n).length = width := by
  induction width generalizing n with
  | zero => rfl
  | succ width ih => simp [hex, ih]

/-- A number of as many digits as belong to a letter. -/
theorem readChar_hex (letter : Char) {c : Char} (hletter : width letter ≠ 0)
    (hc : c.toNat < 16 ^ width letter) (s : Text) :
    readChar ('\\' :: letter :: hex (width letter) c.toNat ++ s) = some (c, s) := by
  show readChar ('\\' :: letter :: (hex (width letter) c.toNat ++ s)) = _
  rw [readChar, if_neg hletter, if_pos (by simp), List.take_left' (length_hex ..),
    List.drop_left' (length_hex ..), ofHex_hex hc, Char.ofNat_toNat]

/-- One character between marks is read back, whatever follows it. -/
theorem readChar_encodeChar {mark : Char} (hmark : mark = '\'' ∨ mark = '"') (c : Char)
    (s : Text) : readChar (encodeChar mark c ++ s) = some (c, s) := by
  unfold encodeChar
  split
  · next h =>
      rcases h with rfl | rfl
      · rcases hmark with rfl | rfl <;> rfl
      · rfl
  split
  · next h =>
      rw [h]
      rfl
  split
  · next h =>
      rw [h]
      rfl
  split
  · next h =>
      rw [h]
      rfl
  split
  · next hback _ _ _ _ =>
      have hne : c ≠ '\\' := fun h => hback (.inr h)
      simp [readChar, hne]
  -- The number has few enough digits each time.
  split
  · next h => exact readChar_hex 'x' (by decide) h s
  split
  · next h => exact readChar_hex 'u' (by decide) h s
  · exact readChar_hex 'U' (by decide) c.val.toNat_lt s

/-- A text is put between marks of one of two sorts. -/
theorem markFor_eq (s : Text) : markFor s = '\'' ∨ markFor s = '"' := by
  unfold markFor
  split
  · exact .inr rfl
  · exact .inl rfl

/-- **What is written of a text, character by character, is read back.** -/
theorem readText_flatMap {mark : Char} (hmark : mark = '\'' ∨ mark = '"') (s : Text) :
    readText (s.flatMap (encodeChar mark)) = some s := by
  induction s with
  | nil => rw [List.flatMap_nil, readText, if_pos rfl]
  | cons c s ih =>
      rw [List.flatMap_cons, readText_of_readChar (readChar_encodeChar hmark c _), ih]
      rfl

/-- **A written form stands for one text only**: that is read back from it. -/
theorem decode_encode (s : Text) : decode (encode s) = some s := by
  have hbetween : ((encode s).drop 1).dropLast = s.flatMap (encodeChar (markFor s)) := by
    simp [encode]
  rw [decode, hbetween, readText_flatMap (markFor_eq s)]

end Text.Quoted

/-! ### Characters that are shown -/

namespace Text

/-- The control characters. -/
def isControl (c : Char) : Bool := c.toNat < 0x20 || 0x7F ≤ c.toNat && c.toNat < 0xA0

/-- A printable character is no control character. -/
theorem not_isControl_of_isPrintable {c : Char} (hc : isPrintable c = true) :
    isControl c = false := by
  -- The control characters are in the first two ranges of those that are not shown.
  obtain ⟨others, hranges⟩ : ∃ others, unprintable = (0x0, 0x1F) :: (0x7F, 0xA0) :: others :=
    ⟨_, rfl⟩
  rw [isPrintable, hranges] at hc
  simp only [Ranges.covers, Bool.not_eq_true', isControl, Bool.or_eq_false_iff,
    Bool.and_eq_false_iff, decide_eq_false_iff_not] at hc ⊢
  split at hc
  · omega
  · split at hc
    · cases hc
    · split at hc
      · omega
      · split at hc
        · cases hc
        · omega

/-- The numbers of the whitespace characters. -/
def blanks : List Nat :=
  [0x09, 0x0A, 0x0B, 0x0C, 0x0D, 0x1C, 0x1D, 0x1E, 0x1F, 0x20, 0x85, 0xA0, 0x1680, 0x2000, 0x2001,
   0x2002, 0x2003, 0x2004, 0x2005, 0x2006, 0x2007, 0x2008, 0x2009, 0x200A, 0x2028, 0x2029, 0x202F,
   0x205F, 0x3000]

/-- All characters that count as whitespace are on the list. -/
theorem mem_blanks {c : Char} (hc : isBlank c = true) : c.toNat ∈ blanks := by
  simp only [isBlank, Bool.or_eq_true, Bool.and_eq_true, decide_eq_true_eq, beq_iff_eq] at hc
  simp only [blanks, List.mem_cons, List.not_mem_nil, or_false]
  omega

/-- The only whitespace that is shown is the plain space. -/
theorem eq_space_of_isPrintable {c : Char} (hc : isPrintable c = true) (hblank : isBlank c = true) :
    c = ' ' := by
  -- All other whitespace is in the table of what is not shown.
  have hothers : ∀ n ∈ blanks, n = ' '.toNat ∨ unprintable.covers n = true := by decide +kernel
  rcases hothers _ (mem_blanks hblank) with hspace | hcovers
  · exact Char.toNat_inj.mp hspace
  · rw [isPrintable, hcovers] at hc
    cases hc

namespace Quoted

/-- Digits are printable. -/
theorem isPrintable_digitChar : ∀ n < 16, isPrintable (Nat.digitChar n) = true := by decide

/-- Numbers are printable. -/
theorem isPrintable_of_mem_hex {width n : Nat} : ∀ c ∈ hex width n, isPrintable c = true := by
  induction width generalizing n with
  | zero => exact fun c hc => nomatch hc
  | succ width ih =>
      intro c hc
      rcases List.mem_append.mp hc with hc | hc
      · exact ih c hc
      · rw [List.mem_singleton.mp hc]
        exact isPrintable_digitChar _ (Nat.mod_lt _ (by decide))

/-- Whatever is written for a character is printable. -/
theorem isPrintable_of_mem_encodeChar {mark : Char} (hmark : mark = '\'' ∨ mark = '"') {c : Char} :
    ∀ d ∈ encodeChar mark c, isPrintable d = true := by
  have hback : isPrintable '\\' = true := by decide
  have hmark' : isPrintable mark = true := by
    rcases hmark with rfl | rfl <;> decide
  -- A backslash, a letter, and digits.
  have hescape : ∀ {letter : Char} (width n : Nat), isPrintable letter = true →
      ∀ d ∈ '\\' :: letter :: hex width n, isPrintable d = true := by
    intro letter width n hletter d hd
    rcases List.mem_cons.mp hd with rfl | hd
    · exact hback
    rcases List.mem_cons.mp hd with rfl | hd
    · exact hletter
    · exact isPrintable_of_mem_hex d hd
  unfold encodeChar
  split
  · next h => exact hescape 0 0 (h.elim (· ▸ hmark') (· ▸ hback))
  split
  · exact hescape 0 0 (by decide)
  split
  · exact hescape 0 0 (by decide)
  split
  · exact hescape 0 0 (by decide)
  split
  · next h =>
      intro d hd
      rw [List.mem_singleton.mp hd]
      exact h
  split
  · exact hescape _ _ (by decide)
  split
  · exact hescape _ _ (by decide)
  · exact hescape _ _ (by decide)

/-- **A written form is a line of characters that can be shown.** -/
theorem isPrintable_of_mem_encode {s : Text} : ∀ c ∈ encode s, isPrintable c = true := by
  have hmark : isPrintable (markFor s) = true := by
    rcases markFor_eq s with h | h <;> rw [h] <;> decide
  intro c hc
  simp only [encode, List.cons_append, List.mem_cons, List.mem_append, List.mem_flatMap,
    List.not_mem_nil, or_false] at hc
  rcases hc with rfl | ⟨d, _, hd⟩ | rfl
  · exact hmark
  · exact isPrintable_of_mem_encodeChar (markFor_eq s) c hd
  · exact hmark

end Quoted

end Text

/-! ### Lexemes cut to their front -/

namespace Value

/-- A short lexeme is shown whole. -/
theorem clip_of_le {lexeme : Text} (h : lexeme.length ≤ 20) : clip lexeme = lexeme := if_pos h

/-- A lexeme is cut behind its first seventeen characters at the earliest. -/
theorem take_clip (lexeme : Text) : (clip lexeme).take 17 = lexeme.take 17 := by
  unfold clip shownWhole
  split
  · rfl
  · next h =>
      rw [List.take_left']
      rw [List.length_take]
      omega

/-- Lexemes that are shown alike begin alike, and are the same unless one of them is long. -/
theorem clip_eq_clip {l l' : Text} (h : clip l = clip l') :
    l.take 17 = l'.take 17 ∧ (l = l' ∨ 20 < l.length ∨ 20 < l'.length) := by
  constructor
  · rw [← take_clip, h, take_clip]
  · by_cases hl : l.length ≤ 20
    · by_cases hl' : l'.length ≤ 20
      · rw [clip_of_le hl, clip_of_le hl'] at h
        exact .inl h
      · exact .inr (.inr (Nat.lt_of_not_le hl'))
    · exact .inr (.inl (Nat.lt_of_not_le hl))

end Value

/-! ### Tokens in words -/

namespace Token

variable {F : Type} [Callable F]

/-- What stands before the lexeme in the words for a token. -/
def opening (title : String) : String := "Token(" ++ title ++ ", "

/-- The lexeme as it is shown, read from the words for a token whose label goes by a title. -/
def shown? (title words : String) : Option Text :=
  Text.Quoted.decode (words.toList.drop (opening title).length).dropLast

/-- A token's words are the title of its label and the lexeme as it is shown, between marks. -/
theorem toList_render (lexeme : Text) (label : Value F) :
    (render ⟨lexeme, label⟩).toList
      = (opening label.title).toList ++ (Text.Quoted.encode (Value.clip lexeme) ++ [')']) := by
  simp [render, Value.tokenText, opening]

/-- The lexeme is read back as it is shown. -/
theorem shown?_render (lexeme : Text) (label : Value F) :
    shown? label.title (render ⟨lexeme, label⟩) = some (Value.clip lexeme) := by
  rw [shown?, toList_render, List.drop_left' String.length_toList, List.dropLast_concat,
    Text.Quoted.decode_encode]

/-- Under one label two tokens have the same words exactly when their lexemes are shown alike. -/
theorem render_eq_iff (label : Value F) (l l' : Text) :
    render ⟨l, label⟩ = render ⟨l', label⟩ ↔ Value.clip l = Value.clip l' := by
  constructor
  · intro h
    have hread := shown?_render l label
    rw [h, shown?_render] at hread
    exact (Option.some.inj hread).symm
  · intro h
    unfold render
    simp only [Value.tokenText, h]

end Token

/-- **The words for a token tell its lexeme as it is shown**, whatever its label is. This is read
back from them, so that two tokens under one label have the same words exactly when their lexemes
are shown alike. Then the lexemes have the first seventeen characters in common, and are equal
unless one of them has more than twenty. All that stands behind the label's title is printable,
which leaves out line breaks, other control characters, and spaces other than the plain one. -/
theorem token_words_tell_lexeme {F : Type} [Callable F] (label : Value F) :
    (∀ l, Token.shown? label.title (Token.render ⟨l, label⟩) = some (Value.clip l)) ∧
    (∀ l l', Token.render ⟨l, label⟩ = Token.render ⟨l', label⟩ ↔ Value.clip l = Value.clip l') ∧
    (∀ l l', Token.render ⟨l, label⟩ = Token.render ⟨l', label⟩ →
      l.take 17 = l'.take 17 ∧ (l = l' ∨ 20 < l.length ∨ 20 < l'.length)) ∧
    ∀ l, ∃ tail, (Token.render ⟨l, label⟩).toList = ("Token(" ++ label.title).toList ++ tail ∧
      ∀ c ∈ tail, Text.isPrintable c = true ∧ Text.isControl c = false ∧
        (Text.isBlank c = true → c = ' ') := by
  refine ⟨fun l => Token.shown?_render l label, Token.render_eq_iff label, fun l l' h => ?_,
    fun l => ⟨", ".toList ++ (Text.Quoted.encode (Value.clip l) ++ [')']), ?_, fun c hc => ?_⟩⟩
  · exact Value.clip_eq_clip ((Token.render_eq_iff label l l').mp h)
  · rw [Token.toList_render, Token.opening, String.toList_append, List.append_assoc]
  · -- The tail is a comma and a blank, the quoted lexeme and the bracket.
    have hprintable : Text.isPrintable c = true := by
      rcases List.mem_append.mp hc with hc | hc
      · obtain rfl | rfl : c = ',' ∨ c = ' ' := by simpa using hc
        · decide
        · decide
      rcases List.mem_append.mp hc with hc | hc
      · exact Text.Quoted.isPrintable_of_mem_encode c hc
      · rw [List.mem_singleton.mp hc]
        decide
    exact ⟨hprintable, Text.not_isControl_of_isPrintable hprintable,
      Text.eq_space_of_isPrintable hprintable⟩

/-- A lexeme of twenty characters that is taken for a longer one, and two shorter ones that differ
in how they are quoted. -/
theorem token_words_tell_lexeme_points :
    let words := fun s : String => (⟨s.toList, .category .text⟩ : Token Ini.StateId).render
    words "abcdefghijklmnopq..." = words "abcdefghijklmnopqrstu" ∧
      "abcdefghijklmnopq...".toList.take 17 = "abcdefghijklmnopqrstu".toList.take 17 ∧
      words "it's\n" ≠ words "it\"s\n" ∧
      Token.shown? "TEXT" (words "it's\n\u2028") = some "it's\n\u2028".toList := by
  intro words
  obtain ⟨hread, hiff, hfront, -⟩ :=
    token_words_tell_lexeme (.category .text : Value Ini.StateId)
  have hsame : words "abcdefghijklmnopq..." = words "abcdefghijklmnopqrstu" :=
    (hiff _ _).mpr (by decide +kernel)
  refine ⟨hsame, (hfront _ _ hsame).1, fun h => ?_, hread _⟩
  exact absurd ((hiff _ _).mp h) (by decide +kernel)

end LexChain
