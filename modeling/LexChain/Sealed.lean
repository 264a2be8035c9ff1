import LexChain.Settings

/-!
# `LexChain.Sealed`: records that cannot be changed

Tokens, settings and states are finished when they are made: none of their
fields can be given another value or taken away. `Sealed.refusal` says how an
attempt fails, which depends on whether the record has such a field at all.
-/

set_option autoImplicit false

namespace LexChain

/-- The sorts of record that cannot be changed. -/
inductive Sealed where
  | token | settings | state
  deriving DecidableEq, Repr

namespace Sealed

/-- The fields of a record in order. -/
def fields : Sealed → List String
  | token => ["lexeme", "category"]
  | settings => Settings.keys
  | state => ["function"]

/-- How an attempt to change a field fails. -/
def refusal (record : Sealed) (edit : Edit) (field : String) : Fault :=
  if field ∈ record.fields then .readOnly edit field else .noField

end Sealed

end LexChain
