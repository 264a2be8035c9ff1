import LexChain.Value.Hash

/-!
# `LexChain.Token`: classified pieces of text

A token is a piece of the source text with the label that a lexer gave it. Two
tokens are equal when lexemes and labels are (`Token.same`). A label may hold an
undefined number, which equals nothing, so that two tokens written alike can
differ; a token is still equal to itself. `Token.comparisons` compares the
tokens of a list with one another, where `getElem?_comparisons` says what stands
in which place.

`Token.collect` puts the tokens of a list into a set. A set keeps its members
with their hashes and compares a new token only with those of the same hash, and
a token without a hash is a fault.
-/

set_option autoImplicit false

namespace LexChain

/-- A piece of source text and its label. -/
structure Token (F : Type) where
  lexeme : Text
  label : Value F

namespace Token

variable {F H : Type}

/-- The token as a value, so that it can label another token. -/
def toValue (t : Token F) : Value F := .token t.lexeme t.label

/-- Whether two tokens that were made separately are equal. -/
def same [BEq F] (t u : Token F) : Bool :=
  t.lexeme == u.lexeme && t.label.same u.label

/-- The hash of a token, or the fault that it has none. -/
def hash [BEq F] (rule : Hashing F H) (t : Token F) : Except Fault H := t.toValue.hash rule

/-- A token in words. -/
def render [Callable F] (t : Token F) : String :=
  Value.tokenText t.lexeme t.label.title

/-- Which tokens of a list are equal, row by row. -/
def comparisons [BEq F] (ts : List (Token F)) : List (List Bool) :=
  ts.mapIdx fun i t => ts.mapIdx fun j u => i == j || t.same u

/-- A row compares one token with all, and is true at the token's own place. -/
theorem getElem?_comparisons [BEq F] (ts : List (Token F)) (i : Nat) :
    (comparisons ts)[i]? =
      ts[i]?.map fun t => ts.mapIdx fun j u => i == j || t.same u := by
  simp [comparisons]

/-- One more token in a set, whose members are kept with their hashes. It is
compared with those of the same hash only. -/
def join [BEq F] [DecidableEq H] (rule : Hashing F H) (kept : List (H × Token F))
    (t : Token F) : Except Fault (List (H × Token F)) :=
  (t.hash rule).map fun x =>
    if kept.any fun k => k.1 == x && k.2.same t then kept else kept ++ [(x, t)]

/-- The set that a list of tokens makes up, or the fault of the first one that
has no hash. -/
def collect [BEq F] [DecidableEq H] (rule : Hashing F H) (ts : List (Token F)) :
    Except Fault (List (H × Token F)) :=
  ts.foldlM (join rule) []

/-- The text that tokens cover together. -/
def covered (ts : List (Token F)) : Text := ts.flatMap (·.lexeme)

end Token

end LexChain
