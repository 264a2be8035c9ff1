import LexChain.Fault
import LexChain.Record
import LexChain.Text.Blank
import LexChain.Text.Index

/-!
# `LexChain.Tokenizer`: a cursor over a text and the tokens emitted so far

A tokenizer stands over one source text. It has a cursor, the position of the
next character to look at, and a start, the position of the first character that
no token covers yet; the text between them is pending. Emitting a token turns
the pending text into a lexeme and moves the start up to the cursor; a tokenizer
that traces its tokens writes a record of it down, and `Tokenizer.reportsSince`
tells the records that were written after an earlier moment.

A `Query` looks and changes nothing. A `Command` may emit tokens and move the
cursor and the start. Both work for any two integers as cursor and start, because
`setPosition` and `setStart` take any. `Command.IsPublic` leaves those two out:
under the others the start and the cursor stay in order and inside the text.
No command changes the source (`Command.source_apply`), and an emission leaves
nothing pending (`start_tokenize`).
-/

set_option autoImplicit false

namespace LexChain

/-- A cursor over a text and the tokens emitted so far. -/
structure Tokenizer (F : Type) where
  source : Text
  start : Int := 0
  position : Int := 0
  /-- What was emitted, the newest first. -/
  emitted : List (Emission F) := []
  /-- Whether emitted tokens are traced. -/
  traced : Bool := false
  /-- The records that were written of emitted tokens, the newest first. -/
  written : List (Record F) := []

namespace Tokenizer

variable {F : Type}

/-- The number of characters in the source. -/
def size (t : Tokenizer F) : Nat := t.source.length

/-- What was emitted so far, in order. -/
def emissions (t : Tokenizer F) : List (Emission F) := t.emitted.reverse

/-- The tokens emitted so far, in order. -/
def tokens (t : Tokenizer F) : List (Token F) := t.emissions.map (·.token)

/-- The records that were written so far, in order. -/
def reports (t : Tokenizer F) : List (Record F) := t.written.reverse

/-- The records that were written since an earlier moment, in order. -/
def reportsSince (t earlier : Tokenizer F) : List (Record F) :=
  t.reports.drop earlier.reports.length

/-! ### Looking -/

/-- Whether there is a character at or after the cursor. -/
def hasMore (t : Tokenizer F) : Bool := t.position < t.size

/-- The text that was passed over and not yet emitted. -/
def pending (t : Tokenizer F) : Text := t.source.slice t.start t.position

/-- The text from a position on that lies before the end of the source; it is
empty at and past the end. -/
def ahead (t : Tokenizer F) (i : Int) : Except Fault Text :=
  if i < t.size then
    match t.source.onward i with
    | some rest => .ok rest
    | none => .error (.noCharacter i)
  else .ok []

/-- The character at the cursor. -/
def current (t : Tokenizer F) : Except Fault (Option Char) :=
  (t.ahead t.position).map List.head?

/-- The character after the cursor. -/
def next (t : Tokenizer F) : Except Fault (Option Char) :=
  (t.ahead (t.position + 1)).map List.head?

/-- The first character after the cursor that is not whitespace. -/
def nextNonBlank (t : Tokenizer F) : Except Fault (Option Char) :=
  (t.ahead (t.position + 1)).map (List.find? (!Text.isBlank ·))

/-- Whether the text at the cursor starts with a given one. Past the end of the
source it starts with none. -/
def startsWith (t : Tokenizer F) (s : Text) : Bool :=
  t.position ≤ t.size && s.isPrefixOf (t.source.slice t.position t.size)

/-- The tokenizer in words. -/
def render (t : Tokenizer F) : String :=
  "Tokenizer(start=" ++ toString t.start ++ ", position=" ++ toString t.position ++
    ", chars=" ++ toString t.size ++ ", tokens=" ++ toString t.emitted.length ++ ")"

/-! ### Moving and emitting -/

/-- The cursor one character further, unless it stands at the end. -/
def advance (t : Tokenizer F) : Tokenizer F :=
  if t.hasMore then { t with position := t.position + 1 } else t

/-- The pending text emitted under a label, if the cursor has left the start. -/
def tokenize (t : Tokenizer F) (label : Value F) : Tokenizer F :=
  if t.start = t.position then t
  else
    let e : Emission F := ⟨⟨t.pending, label⟩, t.start, t.position⟩
    { t with
      emitted := e :: t.emitted
      written := if t.traced then .emitted e :: t.written else t.written
      start := t.position }

/-- The pending text emitted as plain text, then a number of characters, or what
is left of them, under a label. -/
def tokenizeNext (t : Tokenizer F) (amount : Int) (label : Value F) :
    Except Fault Unit × Tokenizer F :=
  if amount < 0 then (.error (.negativeAmount amount), t)
  else
    let flushed := t.tokenize .text
    -- A cursor past the end is moved back to the end here.
    let moved := { flushed with position := min (flushed.position + amount) flushed.size }
    (.ok (), moved.tokenize label)

/-- The pending text emitted as plain text, then the run of whitespace at the
cursor under a label of its own. -/
def consumeBlanks (t : Tokenizer F) : Except Fault Unit × Tokenizer F :=
  let flushed := t.tokenize .text
  match flushed.ahead flushed.position with
  | .error e => (.error e, flushed)
  | .ok rest =>
    let run : Int := (rest.takeWhile Text.isBlank).length
    (.ok (), { flushed with position := flushed.position + run }.tokenize
      (.category .whitespace))

/-- An emission leaves nothing pending. -/
@[simp] theorem start_tokenize (t : Tokenizer F) (label : Value F) :
    (t.tokenize label).start = t.position := by
  unfold tokenize
  split
  · assumption
  · rfl

/-- An emission leaves the cursor where it is. -/
@[simp] theorem position_tokenize (t : Tokenizer F) (label : Value F) :
    (t.tokenize label).position = t.position := by
  unfold tokenize
  split <;> rfl

/-- An emission leaves the source as it is. -/
@[simp] theorem source_tokenize (t : Tokenizer F) (label : Value F) :
    (t.tokenize label).source = t.source := by
  unfold tokenize
  split <;> rfl

/-- With a cursor away from the start exactly the pending text is emitted. -/
theorem tokens_tokenize {t : Tokenizer F} (label : Value F) (h : t.start ≠ t.position) :
    (t.tokenize label).tokens = t.tokens ++ [⟨t.pending, label⟩] := by
  unfold tokenize tokens emissions
  rw [if_neg h]
  simp

end Tokenizer

/-! ### Queries -/

/-- A question to a tokenizer. -/
inductive Query where
  | hasMore
  | current
  | next
  | nextNonBlank
  | startsWith (s : Text)
  | pending
  | size
  | source
  | start
  | position
  | tokens
  | summary
  deriving DecidableEq, Repr

/-- The type of the answer to a question. -/
abbrev Query.Answer (F : Type) : Query → Type
  | hasMore | startsWith _ => Bool
  | current | next | nextNonBlank => Option Char
  | pending | source => Text
  | size => Nat
  | start | position => Int
  | tokens => List (Token F)
  | summary => String

/-- A tokenizer's answer to a question. -/
def Tokenizer.answer {F : Type} (t : Tokenizer F) : (q : Query) → Except Fault (q.Answer F)
  | .hasMore => .ok t.hasMore
  | .current => t.current
  | .next => t.next
  | .nextNonBlank => t.nextNonBlank
  | .startsWith s => .ok (t.startsWith s)
  | .pending => .ok t.pending
  | .size => .ok t.size
  | .source => .ok t.source
  | .start => .ok t.start
  | .position => .ok t.position
  | .tokens => .ok t.tokens
  | .summary => .ok t.render

/-- Whether a question is about the text around the cursor only, and not about
positions, the whole source or the tokens emitted before. -/
def Query.IsLocal : Query → Prop
  | hasMore | current | next | nextNonBlank | startsWith _ | pending => True
  | size | source | start | position | tokens | summary => False

/-! ### Commands -/

/-- An instruction to a tokenizer. -/
inductive Command (F : Type) where
  | advance
  | tokenize (label : Value F)
  | tokenizeNext (amount : Int) (label : Value F)
  | consumeBlanks
  | setPosition (i : Int)
  | setStart (i : Int)

/-- What an instruction makes of a tokenizer, and whether it failed. A failed
instruction leaves what it had done before it failed. -/
def Command.apply {F : Type} : Command F → Tokenizer F → Except Fault Unit × Tokenizer F
  | advance, t => (.ok (), t.advance)
  | tokenize label, t => (.ok (), t.tokenize label)
  | tokenizeNext amount label, t => t.tokenizeNext amount label
  | consumeBlanks, t => t.consumeBlanks
  | setPosition i, t => (.ok (), { t with position := i })
  | setStart i, t => (.ok (), { t with start := i })

/-- No instruction changes the source. -/
theorem Command.source_apply {F : Type} (c : Command F) (t : Tokenizer F) :
    (c.apply t).2.source = t.source := by
  cases c with
  | advance =>
      unfold apply Tokenizer.advance
      dsimp only
      split <;> rfl
  | tokenize label => exact t.source_tokenize label
  | tokenizeNext amount label =>
      unfold apply Tokenizer.tokenizeNext
      dsimp only
      split
      · rfl
      · simp
  | consumeBlanks =>
      unfold apply Tokenizer.consumeBlanks
      dsimp only
      split <;> simp
  | setPosition i => rfl
  | setStart i => rfl

/-- Whether an instruction leaves it to the tokenizer where cursor and start go. -/
def Command.IsPublic {F : Type} : Command F → Prop
  | setPosition _ | setStart _ => False
  | _ => True

/-- It can be decided. -/
instance {F : Type} (c : Command F) : Decidable c.IsPublic :=
  match c with
  | .setPosition _ | .setStart _ => .isFalse id
  | .advance | .tokenize _ | .tokenizeNext _ _ | .consumeBlanks => .isTrue trivial

end LexChain
