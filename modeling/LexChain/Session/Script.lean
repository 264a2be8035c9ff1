import LexChain.Settings
import LexChain.Tokenizer

/-!
# `LexChain.Session.Script`: sessions written down

A session plays steps one after the other on a few tokenizers, one of which is
the current one. It can define states of its own, whose bodies are made of
statements: steps again, loops and branches over conditions, failures, and the
value that the state hands back. A `Literal` is a value written down: states and
categories stand in it by name and floating-point numbers by their text, and
each is looked up or read only when the literal is evaluated.

`LexChain.Session.Meaning` says what these mean.
-/

set_option autoImplicit false

namespace LexChain.Session

/-- What a literal refers to. -/
inductive Reference where
  | state (name : String)
  | category (name : String)
  /-- A floating-point number, by its text. -/
  | number (text : String)
  deriving DecidableEq, Repr

/-- A value written down. -/
abbrev Literal := Value Reference

/-- A test that a body can make. -/
inductive Condition where
  | always
  | more
  | currentIn (cs : List Char)
  | nextIn (cs : List Char)
  | nextNonBlankIn (cs : List Char)
  | atBlank
  | startsWith (s : Text)
  | pendingIs (s : Text)
  /-- The cursor stands before a position. -/
  | before (i : Int)
  /-- The state has been entered fewer times, this one included. -/
  | enteredLess (n : Int)
  | not (c : Condition)
  | both (c d : Condition)

namespace Condition

/-- All conditions hold; tested in order up to the first that does not. -/
def all (cs : List Condition) : Condition := cs.foldr both always

/-- Some condition holds; tested in order up to the first that does. -/
def any (cs : List Condition) : Condition := .not (all (cs.map .not))

end Condition

/-- Where the steps of a block take their settings from. -/
inductive Block where
  | given (source : Literal)
  | copied
  | fresh

/-- A single step. -/
inductive Step where
  /-- A new tokenizer, which becomes the current one. -/
  | create (source : Text)
  | select (i : Int)
  | advance (times : Int)
  | ask (q : Query)
  /-- The five questions about the text around the cursor. -/
  | look
  | reprs
  | tell (c : Command Reference)
  /-- Keep the tokens emitted so far. -/
  | hold
  | held (i : Int)
  | clearHeld (i : Int)
  | run (initial : Literal)
  | lex (source : Text) (initial : Literal)
  | call (name : String)
  | describe (name : String)
  | compare (a b : String)
  | configure (source : Literal)
  | reset
  | settings
  | within (block : Block) (steps : List Step)

/-- A statement of a body. -/
inductive Statement where
  /-- Leave the state with a value. -/
  | leave (v : Literal)
  | fail (alarm : Alarm) (text : String)
  | choose (c : Condition) (yes no : List Statement)
  | loop (c : Condition) (body : List Statement)
  | step (s : Step)

/-- How a defined state is wrapped, and whether it goes by its own name. -/
inductive Kind where
  | bare | wrapped | wrappedTwice
  /-- Not wrapped, and without a name of its own. -/
  | anonymous
  deriving DecidableEq, Repr

/-- A state defined by a session. -/
structure Definition where
  name : String
  kind : Kind := .wrapped
  body : List Statement

end LexChain.Session
