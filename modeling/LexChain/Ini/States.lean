import LexChain.Program

/-!
# `LexChain.Ini.States`: a lexer for settings files

A settings file has a section name between brackets, a key with its value, or a
comment on each line. Four states read it: `line` looks at the character that a
line starts with and hands over to one of the others, and each of these reads up
to the end of the line at most and hands back to `line`. A malformed line is
read by the same rules, so no text is lost.

The states can be part of any type of callables: `embed` says which of its
callables they are.
-/

set_option autoImplicit false

namespace LexChain.Ini

/-- The states of the lexer. -/
inductive StateId where
  /-- At the start of a line, or at whitespace. -/
  | line
  /-- In a comment. -/
  | comment
  /-- Behind an opening bracket. -/
  | sectionName
  /-- At a key. -/
  | key
  deriving DecidableEq, Repr

namespace StateId

/-- All four. -/
def all : List StateId := [line, comment, sectionName, key]

/-- The name in messages and records. -/
def name : StateId → String
  | line => "line_state"
  | comment => "comment_state"
  | sectionName => "section_state"
  | key => "key_state"

end StateId

/-- States are named in messages by these names. -/
instance : Callable StateId := ⟨StateId.name⟩

variable {F M : Type}

/-- The value that hands over to a state. -/
def handOver (embed : StateId → F) (s : StateId) : Value F := .state (.of (embed s))

/-- Move the cursor to the next of the given characters, or to the end. -/
def advanceTo (stops : List Char) (h : Handle) : Program F M Unit :=
  Program.whileTrue
    (do
      if ← Program.ask h .hasMore then
        match ← Program.ask h .current with
        | some c => return !stops.contains c
        | none => return true
      else return false)
    (Program.tell h .advance)

/-- Emit the pending text under a category. -/
def emit (h : Handle) (c : Category) : Program F M Unit :=
  Program.tell h (.tokenize (.category c))

/-- Emit the character at the cursor under a category. -/
def emitOne (h : Handle) (c : Category) : Program F M Unit :=
  Program.tell h (.tokenizeNext 1 (.category c))

/-- What a state does with a tokenizer. -/
def body (embed : StateId → F) : StateId → Handle → Program F M (Value F)
  | .line, h => do
    match ← Program.ask h .current with
    | none => return .none
    | some c =>
      if Text.isBlank c then
        Program.tell h .consumeBlanks
        return handOver embed .line
      else if c = ';' ∨ c = '#' then
        return handOver embed .comment
      else if c = '[' then
        emitOne h .bracket
        return handOver embed .sectionName
      else
        return handOver embed .key
  | .comment, h => do
    advanceTo ['\n'] h
    emit h .comment
    return handOver embed .line
  | .sectionName, h => do
    advanceTo [']', '\n'] h
    emit h .identifier
    if (← Program.ask h .current) = some ']' then
      emitOne h .bracket
    return handOver embed .line
  | .key, h => do
    advanceTo ['=', '\n'] h
    emit h .key
    if (← Program.ask h .current) = some '=' then
      emitOne h .operator
      advanceTo ['\n'] h
      emit h .string
    return handOver embed .line

/-- The lexer on its own. -/
def machine : Machine StateId M := body id

end LexChain.Ini
