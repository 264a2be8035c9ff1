import LexChain.Text.Quoted

/-!
# `LexChain.Fault`: what can go wrong

A fault says why an operation failed. `Fault.message` puts it into words and
`Fault.belongs` sorts faults into families that a caller may want to treat
alike: a rejected amount is a lexing fault and a value fault, a chain of states
that cannot go on is a lexing fault and a type fault.
-/

set_option autoImplicit false

namespace LexChain

/-- The kinds of failure that a state can raise on its own account. -/
inductive Alarm where
  | runtime | value | lexing
  deriving DecidableEq, Repr

/-- The ways to try to change a finished record. -/
inductive Edit where
  | assign | delete
  deriving DecidableEq, Repr

/-- Why an operation failed. -/
inductive Fault where
  /-- A token of fewer than no characters was asked for. -/
  | negativeAmount (amount : Int)
  /-- A state handed back something that is no state. -/
  | notAState (source typeName : String)
  /-- The position lies before the text, even counted back from its end. -/
  | noCharacter (position : Int)
  /-- A list has no item at the position. -/
  | noItem (position : Int)
  /-- A state failed on its own account. -/
  | raised (alarm : Alarm) (text : String)
  /-- The value cannot be a member of a set. -/
  | unhashable (typeName : String)
  | unknownCategory (name : String)
  | notACategory (written : String)
  /-- The text denotes no floating-point number. -/
  | notANumber (text : String)
  /-- Settings were asked of a value that has no keys. -/
  | notAMapping (typeName : String)
  | unknownSetting (key : String)
  /-- The argument has a value already. -/
  | givenTwice (key : String)
  | readOnly (edit : Edit) (field : String)
  /-- A finished record was to be changed in a field that it does not have. -/
  | noField
  | unknownState (name : String)
  /-- There is no tokenizer to work on yet. -/
  | noTokenizer
  /-- More states were entered and loops gone round than a session may. -/
  | exhausted
  deriving DecidableEq, Repr

/-- The families of faults. -/
inductive Family where
  | amount | chain | lexing | type | value
  deriving DecidableEq, Repr

namespace Fault

/-- Whether a fault is of a family. -/
def belongs : Fault → Family → Bool
  | negativeAmount _, family => family == .amount || family == .lexing || family == .value
  | notAState _ _, family => family == .chain || family == .lexing || family == .type
  | raised .lexing _, family => family == .lexing
  | raised .value _, family => family == .value
  | unhashable _, family => family == .type
  | notACategory _, family | notANumber _, family => family == .value
  | unknownSetting _, family | givenTwice _, family => family == .type
  | noField, family => family == .type
  | _, _ => false

/-- Why there is nothing at a position of a sequence: the position is too large
to be one at all, in either direction, or it is merely outside. -/
def outside (sequence : String) (position : Int) : String :=
  if -0x8000000000000000 ≤ position ∧ position < 0x8000000000000000 then
    sequence ++ " index out of range"
  else "cannot fit 'int' into an index-sized integer"

/-- A fault in words. -/
def message : Fault → String
  | negativeAmount amount => "amount must be non-negative, got " ++ toString amount
  | notAState source typeName =>
    "State '" ++ source ++ "' returned " ++ typeName ++
      "; expected a StateFunction, a callable or None"
  | noCharacter position => outside "string" position
  | noItem position => outside "list" position
  | raised _ text => text
  | unhashable typeName => "unhashable type: '" ++ typeName ++ "'"
  | unknownCategory name => Text.Quoted.encodeString name
  | notACategory written => written ++ " is not a valid Category"
  | notANumber text =>
    "could not convert string to float: " ++ Text.Quoted.encodeString text
  | notAMapping typeName => "'" ++ typeName ++ "' object has no attribute 'items'"
  | unknownSetting key =>
    "LexConfig.__init__() got an unexpected keyword argument '" ++ key ++ "'"
  | givenTwice key =>
    "LexConfig.__init__() got multiple values for argument '" ++ key ++ "'"
  | readOnly .assign field => "cannot assign to field " ++ Text.Quoted.encodeString field
  | readOnly .delete field => "cannot delete field " ++ Text.Quoted.encodeString field
  | noField => "super(type, obj): obj must be an instance or subtype of type"
  | unknownState name => Text.Quoted.encodeString name
  | noTokenizer => "no tokenizer"
  | exhausted => "out of fuel"

end Fault

end LexChain
