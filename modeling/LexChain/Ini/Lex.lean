import LexChain.Ini.States
import LexChain.Program.Exec

/-!
# `LexChain.Ini.Lex`: settings files as tokens

The lexer for settings files started at the beginning of a line, on a text of
its own, and a sample file with its tokens listed one to a line.
-/

set_option autoImplicit false

namespace LexChain.Ini

/-- Fuel enough for a text: of any two calls in a row one passes a character. -/
def fuelFor (source : Text) : Nat := 2 * source.length + 2

/-- What lexing a text comes to. -/
def lex (source : Text) : Option (Except Fault (List (Token StateId))) :=
  let w : World StateId Unit := { memory := () }
  (machine.exec (fuelFor source) (Program.lex source (handOver id .line)) w).1

/-- The tokens of a text. -/
def tokens (source : Text) : List (Token StateId) :=
  match lex source with
  | some (.ok ts) => ts
  | _ => []

/-- The tokens of a text in words, each on a line. -/
def listing (source : Text) : String :=
  String.join ((tokens source).map fun t => t.render ++ "\n")

/-- A settings file with a comment, a section and two keys. -/
def sample : String := "; settings\n[server]\nhost=localhost\nport=8080\n"

end LexChain.Ini
