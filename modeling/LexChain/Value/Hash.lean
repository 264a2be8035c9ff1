import LexChain.Fault
import LexChain.Value

/-!
# `LexChain.Value.Hash`: hashes of values

A value can be a key of a map or a member of a set if it has a hash. The hash of
a value is made of those of its parts, in order, and a list or a map among them
is a fault (`Value.hash`). A state is a record with one part, the thing that it
wraps, so its hash goes one wrapping at a time (`State.hash`).

How hashes are made is left open: a `Hashing` says it. What it has to obey is
that equal callables have one hash, and so do numbers which are equal, whatever
their sorts.
`Hashing.standard` is one that can be computed.
-/

set_option autoImplicit false

namespace LexChain

variable {F H : Type} [BEq F]

/-- How hashes are made. -/
structure Hashing (F H : Type) [BEq F] where
  /-- The hash of a value without parts. -/
  atom : Value F → H
  /-- The hash of what consists of parts, from theirs. -/
  combine : List H → H
  /-- Values that count as the same number have one hash. -/
  number_eq : ∀ {u v : Value F} {m n : Number}, u.number? = some m → v.number? = some n →
    m.same n = true → atom u = atom v
  /-- Equal callables have one hash. -/
  callable_eq : ∀ {f g : F}, (f == g) = true → atom (.callable f) = atom (.callable g)

namespace Hashing

/-- The hash of a value without parts, by its text or its name. All numbers have
one hash, so that equal ones do. -/
def standardAtom [Callable F] : Value F → UInt64
  | .none => 3
  | .str s => hash s
  | .category c => hash c.fullName
  | .callable f => hash (Callable.name f)
  | _ => 5

/-- Hashes that can be computed. -/
def standard [Callable F] [LawfulBEq F] : Hashing F UInt64 where
  atom := standardAtom
  combine := hash
  number_eq := by
    intro u v m n hu hv _
    cases u <;> cases v <;> simp_all [standardAtom, Value.number?]
  callable_eq := fun heq => by rw [eq_of_beq heq]

end Hashing

/-- The hash of a state, from that of what it wraps. -/
def State.hash (rule : Hashing F H) : State F → H
  | of f => rule.combine [rule.atom (.callable f)]
  | wrap s => rule.combine [s.hash rule]

/-- Equal states have one hash. -/
theorem State.hash_eq_of_same (rule : Hashing F H) {s s' : State F} (hsame : s.same s' = true) :
    s.hash rule = s'.hash rule := by
  induction s generalizing s' with
  | of f =>
      cases s' with
      | of g => exact congrArg (fun x => rule.combine [x]) (rule.callable_eq hsame)
      | wrap s' => cases hsame
  | wrap s ih =>
      cases s' with
      | of g => cases hsame
      | wrap s' => exact congrArg (fun x => rule.combine [x]) (ih hsame)

namespace Value

mutual

/-- The hash of a value, or the fault that it has none. -/
def hash (rule : Hashing F H) : Value F → Except Fault H
  | list items => .error (.unhashable (list items).typeName)
  | map entries => .error (.unhashable (map entries).typeName)
  | tuple items => (hashAll rule items).map rule.combine
  | named name => (hash rule name).map fun x => rule.combine [x]
  | token lexeme label =>
    (hash rule label).map fun x => rule.combine [rule.atom (str (String.ofList lexeme)), x]
  | state s => .ok (s.hash rule)
  | v => .ok (rule.atom v)

/-- The hashes of values, or the fault of the first one that has none. -/
def hashAll (rule : Hashing F H) : List (Value F) → Except Fault (List H)
  | [] => .ok []
  | v :: vs => do return (← hash rule v) :: (← hashAll rule vs)

end

/-- The map of keys and values that are put into it in order, or the fault of
the first key that has no hash. -/
def mapOf (rule : Hashing F H) (entries : List (Value F × Value F)) :
    Except Fault (Value F) := do
  let made ← entries.foldlM (fun made e => do
    let _ ← e.1.hash rule
    return insert e.1 e.2 made) []
  return map made

end Value

end LexChain
