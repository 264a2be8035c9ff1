import LexChain.Binary64.Reader
import LexChain.Category.Lookup
import LexChain.Ini.States
import LexChain.Session.Script

/-!
# `LexChain.Session.Roster`: the states of a session by name

The four states of the settings-file lexer are known to every session, under
their names with a mark in front. The states that a session defines are known
under the names that it gives them. An anonymous one goes by a description in
messages.
-/

set_option autoImplicit false

namespace LexChain.Session

/-- The callables of a session. -/
inductive Callee where
  | ini (s : Ini.StateId)
  | defined (name : String)
  | anonymous (name : String)
  deriving DecidableEq, Repr

namespace Callee

/-- The name in messages and records. -/
def name : Callee → String
  | ini s => s.name
  | defined name => name
  | anonymous name => "<callable " ++ name ++ ">"

/-- The name that a session refers to the state by. -/
def key : Callee → String
  | ini s => "@" ++ s.name
  | defined name | anonymous name => name

/-- The name that a session gave to one of its own states. -/
def ownName? : Callee → Option String
  | ini _ => none
  | defined name | anonymous name => some name

end Callee

/-- They are named in messages by these names. -/
instance : Callable Callee := ⟨Callee.name⟩

/-- The value that a definition makes known. -/
def Definition.value (d : Definition) : Value Callee :=
  match d.kind with
  | .bare => .callable (.defined d.name)
  | .wrapped => .state (.of (.defined d.name))
  | .wrappedTwice => .state (State.of (.defined d.name)).wrap
  | .anonymous => .callable (.anonymous d.name)

/-- The values that a session refers to by name. -/
abbrev Roster := List (String × Value Callee)

namespace Roster

/-- What is known in a session with the given definitions; the last one of a
name counts. -/
def ofDefinitions (definitions : List Definition) : Roster :=
  definitions.reverse.map (fun d => (d.name, d.value)) ++
    Ini.StateId.all.map fun s => ((Callee.ini s).key, .state (.of (.ini s)))

/-- The value of a name. -/
def find (roster : Roster) (name : String) : Except Fault (Value Callee) :=
  match roster.lookup name with
  | some v => .ok v
  | none => .error (.unknownState name)

/-- What a reference stands for. -/
def deref (roster : Roster) : Reference → Except Fault (Value Callee)
  | .state name => roster.find name
  | .category name => (Category.ofName name).map .category
  | .number text =>
    match Binary64.ofText? text.toList with
    | some x => .ok (.float x)
    | none => .error (.notANumber text)

end Roster

end LexChain.Session
