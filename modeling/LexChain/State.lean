/-!
# `LexChain.State`: the states of a lexer

A lexer is a chain of states, and what a state does is some callable thing. The
type `F` of callables is left open: all this library asks of it is a name for
each one and, where values are compared, which of them count as equal. Equal
callables need not be one and the same. A state wraps one thing that can be
called, a callable or another state, so wrappings can be nested to any depth.

Whatever is done with a state goes one wrapping at a time: it is called by
calling what it wraps (`State.call`), it is named by what it wraps
(`State.name`), and it equals another state when the two wrap equal things
(`State.same`). What this comes to through all wrappings is told by the callable
inside (`State.callee`) and the number of wrappings around it beyond the first
(`State.layers`): `call_eq`, `name_eq` and `same_iff`, each by induction on the
wrappings.
-/

set_option autoImplicit false

namespace LexChain

/-- A type of callables, each with a name for messages. -/
class Callable (F : Type) where
  /-- The name of a callable. -/
  name : F → String

/-- What wraps a callable or another state. -/
inductive State (F : Type) where
  /-- A callable wrapped once. -/
  | of (f : F)
  /-- A state wrapped once more. -/
  | wrap (s : State F)
  deriving DecidableEq, Repr

namespace State

universe u

variable {F : Type} {α : Type u}

/-- A state is called by calling what it wraps. `enter` says what calling a
callable does. -/
def call (enter : F → α) : State F → α
  | of f => enter f
  | wrap s => s.call enter

/-- The callable inside all wrappings. -/
def callee : State F → F
  | of f => f
  | wrap s => s.callee

/-- How many wrappings there are beyond the first. -/
def layers : State F → Nat
  | of _ => 0
  | wrap s => s.layers + 1

/-- A state's name put between the words that show it is a state. -/
def enclose (name : String) : String := "StateFunction(" ++ name ++ ")"

/-- The name in messages and records. A callable gives its own name to the
state around it, and a state its description. -/
def name [Callable F] : State F → String
  | of f => Callable.name f
  | wrap s => enclose s.name

/-- The name with the words that show it is a state. -/
def description [Callable F] (s : State F) : String := enclose s.name

/-- Whether two states wrap equal things. A callable equals no state. -/
def same [BEq F] : State F → State F → Bool
  | of f, of g => f == g
  | wrap s, wrap s' => s.same s'
  | _, _ => false

/-- A call goes through to the callable inside. -/
theorem call_eq (enter : F → α) (s : State F) : s.call enter = enter s.callee := by
  induction s with
  | of f => rfl
  | wrap s ih => exact ih

/-- A name enclosed any number of times. -/
def encloseTimes : Nat → String → String
  | 0, name => name
  | n + 1, name => enclose (encloseTimes n name)

/-- The callable's name is enclosed once for every wrapping beyond the first. -/
theorem name_eq [Callable F] (s : State F) :
    s.name = encloseTimes s.layers (Callable.name s.callee) := by
  induction s with
  | of f => rfl
  | wrap s ih => exact congrArg enclose ih

/-- The callable and the number of wrappings make up a state. -/
theorem eq_iff {s s' : State F} : s = s' ↔ s.layers = s'.layers ∧ s.callee = s'.callee := by
  induction s generalizing s' with
  | of f => cases s' <;> simp [layers, callee]
  | wrap s ih => cases s' <;> simp [layers, callee, ih]

/-- Equal states are wrapped equally often, around equal callables. -/
theorem same_iff [BEq F] {s s' : State F} :
    s.same s' = true ↔ s.layers = s'.layers ∧ (s.callee == s'.callee) = true := by
  induction s generalizing s' with
  | of f => cases s' <;> simp [same, layers, callee]
  | wrap s ih => cases s' <;> simp [same, layers, callee, ih]

end State

end LexChain
