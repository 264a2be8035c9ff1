import LexChain.World

/-!
# `LexChain.Program`: what a state may do

A `Program F M α` is a computation that ends in an `α` or in a fault. It can do
what a state of a lexer can do: create tokenizers, ask them and tell them,
drive a chain of states over one, call a single callable, take lists of tokens,
read them and empty them, read and replace the settings in force, run a part of
itself under settings of its own, and use a memory that it shares with other
programs. Programs are data, so a law can say
of all of them, or of those that avoid some step, what becomes of the world.

`LexChain.Program.Exec` executes them. A loop (`iterate`, `whileTrue`) need not
end, which is why execution takes an amount of fuel.
-/

set_option autoImplicit false

namespace LexChain

/-- Under which settings a part of a program runs. When it is left, by its end
or by a fault, the settings before it are in force again. -/
inductive Scope (F : Type) where
  /-- Under the given settings. -/
  | given (settings : Settings F)
  /-- Under a copy of the present ones. -/
  | copied
  /-- Under the default ones, as a thread of its own has them. -/
  | fresh

/-- The settings in force at the start of a scope, when `settings` were before. -/
def Scope.entry {F : Type} (settings : Settings F) : Scope F → Settings F
  | given s => s
  | copied => settings
  | fresh => .default

/-- A computation on tokenizers, settings and a memory. -/
inductive Program (F M : Type) : Type → Type 1 where
  | pure {α : Type} (a : α) : Program F M α
  | bind {α β : Type} (p : Program F M α) (k : α → Program F M β) : Program F M β
  | fail {α : Type} (e : Fault) : Program F M α
  /-- Run a part and hand on its fault as a value. -/
  | attempt {α : Type} (p : Program F M α) : Program F M (Except Fault α)
  /-- Repeat a step, from a seed on, until it yields a result. -/
  | iterate {σ α : Type} (step : σ → Program F M (σ ⊕ α)) (seed : σ) : Program F M α
  | create (source : Text) : Program F M Handle
  | ask (h : Handle) (q : Query) : Program F M (q.Answer F)
  | tell (h : Handle) (c : Command F) : Program F M Unit
  /-- Drive the chain that starts at a value over a tokenizer. -/
  | run (h : Handle) (initial : Value F) : Program F M (List (Token F))
  /-- Call a callable once with a tokenizer. -/
  | call (f : F) (h : Handle) : Program F M (Value F)
  /-- Take a list of the tokens emitted so far, and its number. -/
  | hold (h : Handle) : Program F M ListId
  /-- Read a list that was taken. -/
  | held (k : ListId) : Program F M (List (Token F))
  /-- Empty a list that was taken. -/
  | clear (k : ListId) : Program F M Unit
  | settings : Program F M (Settings F)
  | configure (s : Settings F) : Program F M Unit
  | within {α : Type} (scope : Scope F) (p : Program F M α) : Program F M α
  | memory : Program F M M
  | remember (m : M) : Program F M Unit

namespace Program

variable {F M α : Type}

/-- Programs are written with the steps in a row. -/
instance : Monad (Program F M) where
  pure := pure
  bind := bind

/-- Repeat a body as long as a condition holds. -/
def whileTrue (condition : Program F M Bool) (body : Program F M Unit) :
    Program F M Unit :=
  iterate (fun _ => do
    if ← condition then
      body
      return .inl ()
    else
      return .inr ()) ()

/-- Drive a chain over a new tokenizer of its own. -/
def lex (source : Text) (initial : Value F) : Program F M (List (Token F)) := do
  run (← create source) initial

/-- Drive a chain over a tokenizer and keep the list that comes of it, which is
taken when the chain has stopped. -/
def runHeld (h : Handle) (initial : Value F) : Program F M ListId := do
  let _ ← run h initial
  hold h

/-- Call a value with a tokenizer, if it is one that can be called. -/
def callValue? (v : Value F) (h : Handle) : Option (Program F M (Value F)) :=
  match v with
  | .callable f => some (call f h)
  | .state s => some (s.call call h)
  | _ => none

/-- A result, or the fault that stands in its place. -/
def ofExcept : Except Fault α → Program F M α
  | .ok a => pure a
  | .error e => fail e

/-- Change the memory. -/
def update (f : M → M) : Program F M Unit := do
  remember (f (← memory))

end Program

/-- What each callable does when it is called with a tokenizer. -/
abbrev Machine (F M : Type) := F → Handle → Program F M (Value F)

end LexChain
