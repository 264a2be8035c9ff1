import LexChain.Value.Hash

/-!
# `LexChain.Value.Resolve`: values with references in them

A value can be written down before its parts are known, with references in the
places of callables. `Value.resolve` looks every reference up, in the order in
which they stand, and puts what it finds there; the first one that is not found
is the fault. A map is made anew of what its keys and values come to.
-/

set_option autoImplicit false

namespace LexChain.Value

variable {R F : Type}

/-- A value with further wrappings around it; only callables and states take
any. -/
def wrapTimes : Nat → Value F → Value F
  | 0, v => v
  | n + 1, v => match v.wrap? with
    | some s => wrapTimes n (.state s)
    | Option.none => v

/-- What a state comes to whose callable is a reference. -/
def resolveState (find : R → Except Fault (Value F)) : State R → Except Fault (Value F)
  | .of r => (find r).map (wrapTimes 1)
  | .wrap s => (resolveState find s).map (wrapTimes 1)

variable [Callable F] [DecidableEq F]

mutual

/-- A value with what each reference in it stands for. -/
def resolve (find : R → Except Fault (Value F)) : Value R → Except Fault (Value F)
  | none => .ok none
  | bool b => .ok (bool b)
  | int n => .ok (int n)
  | float x => .ok (float x)
  | str s => .ok (str s)
  | list items => (resolveAll find items).map list
  | tuple items => (resolveAll find items).map tuple
  | map entries => do mapOf .standard (← resolveEntries find entries)
  | category c => .ok (category c)
  | named name => (resolve find name).map named
  | token lexeme label => (resolve find label).map (token lexeme)
  | callable r => find r
  | state s => resolveState find s

/-- Values with what each reference in them stands for. -/
def resolveAll (find : R → Except Fault (Value F)) :
    List (Value R) → Except Fault (List (Value F))
  | [] => .ok []
  | v :: vs => do return (← resolve find v) :: (← resolveAll find vs)

/-- Keys and values with what each reference in them stands for. -/
def resolveEntries (find : R → Except Fault (Value F)) :
    List (Value R × Value R) → Except Fault (List (Value F × Value F))
  | [] => .ok []
  | (key, value) :: rest => do
    return (← resolve find key, ← resolve find value) :: (← resolveEntries find rest)

end

end LexChain.Value
