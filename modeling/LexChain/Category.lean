/-!
# `LexChain.Category`: the default token categories

A lexer may label its tokens with these or bring labels of its own. The
tokenizer interprets none of them. It only uses `text` for pending input that
no lexer classified, and `whitespace` for a run of whitespace. A category has a
name and a number, counted from one in the order below; `named?_name` and
`number_injective` say that either one identifies it.
-/

set_option autoImplicit false

namespace LexChain

/-- A default token category. -/
inductive Category where
  | text | whitespace | identifier | keyword
  | brace | bracket | parenthesis | operator
  | integer | float | string | boolean | literal
  | comment | function | method | call | key
  deriving DecidableEq, Repr

namespace Category

/-- The categories in order. -/
def all : List Category :=
  [text, whitespace, identifier, keyword, brace, bracket, parenthesis, operator,
   integer, float, string, boolean, literal, comment, function, method, call, key]

/-- The name in capitals. -/
def name : Category → String
  | text => "TEXT"
  | whitespace => "WHITESPACE"
  | identifier => "IDENTIFIER"
  | keyword => "KEYWORD"
  | brace => "BRACE"
  | bracket => "BRACKET"
  | parenthesis => "PARENTHESIS"
  | operator => "OPERATOR"
  | integer => "INTEGER"
  | float => "FLOAT"
  | string => "STRING"
  | boolean => "BOOLEAN"
  | literal => "LITERAL"
  | comment => "COMMENT"
  | function => "FUNCTION"
  | method => "METHOD"
  | call => "CALL"
  | key => "KEY"

/-- The number, counted from one. -/
def number (c : Category) : Nat := all.idxOf c + 1

/-- The category of a name. -/
def named? (s : String) : Option Category := all.find? (·.name == s)

/-- The category's own name, with the family's in front. -/
def fullName (c : Category) : String := "Category." ++ c.name

/-- The full name and the number between angle brackets. -/
def description (c : Category) : String :=
  "<" ++ c.fullName ++ ": " ++ toString c.number ++ ">"

/-- A name identifies its category. -/
theorem named?_name (c : Category) : named? c.name = some c := by
  cases c <;> rfl

/-- A number identifies its category. -/
theorem number_injective {c d : Category} (h : c.number = d.number) : c = d := by
  revert h
  cases c <;> cases d <;> decide

end Category

end LexChain
