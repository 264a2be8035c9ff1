import LexChain.Token

/-!
# `LexChain.Record`: what is reported

Three things are reported: a token that a tracing tokenizer emitted, a
transition from one state to the next or to the end of the chain, and text that
was pending when a chain stopped. A record belongs to a channel, whose name has
the library's own in front, has a level, and is put into words by
`Record.message`.
-/

set_option autoImplicit false

namespace LexChain

/-- How serious a record is. -/
inductive Level where
  | debug | warning
  deriving DecidableEq, Repr

/-- The part of the library that a record comes from. -/
inductive Channel where
  | tokenizer | state
  deriving DecidableEq, Repr

namespace Channel

/-- The name that stands in front of every channel's. -/
def root : String := "luthor"

/-- A channel name with the common name in front, unless it is there already. -/
def qualify (name : String) : String :=
  if name = root ∨ (root ++ ".").toList.isPrefixOf name.toList then name
  else root ++ "." ++ name

/-- The full name. -/
def name : Channel → String
  | tokenizer => qualify "tokenizer"
  | state => qualify "state"

end Channel

/-- A token with the range that it was emitted for. -/
structure Emission (F : Type) where
  token : Token F
  start : Int
  stop : Int

/-- What is reported. -/
inductive Record (F : Type) where
  | emitted (e : Emission F)
  /-- A state, by name, handed over to the next one or ended the chain. -/
  | moved (source : String) (target : Option String) (position : Int)
  /-- A chain stopped and its pending text is lost. -/
  | dropped (text : Text) (start stop : Int)

namespace Record

variable {F : Type}

/-- How serious the record is. -/
def level : Record F → Level
  | emitted _ | moved _ _ _ => .debug
  | dropped _ _ _ => .warning

/-- Where the record comes from. -/
def channel : Record F → Channel
  | emitted _ => .tokenizer
  | moved _ _ _ | dropped _ _ _ => .state

/-- A range between two positions. -/
def span (start stop : Int) : String := toString start ++ ":" ++ toString stop

/-- The name of a chain's end. -/
def done : String := "<done>"

/-- The record in words. -/
def message [Callable F] : Record F → String
  | emitted e => "Emitted " ++ e.token.render ++ " at " ++ span e.start e.stop
  | moved source target position =>
    source ++ " -> " ++ target.getD done ++ " at " ++ toString position
  | dropped text start stop =>
    "State chain stopped with unflushed text " ++
      String.ofList (Text.Quoted.encode text) ++ " at " ++ span start stop ++
      "; it was dropped"

end Record

end LexChain
