import LexChain.Binary64.Shortest
import LexChain.Category
import LexChain.State
import LexChain.Text.Quoted

/-!
# `LexChain.Value`: labels, settings and results

The tokenizer takes any value as a token's label and a configuration takes any
value as a setting, and a state may hand back any value, though only some are
accepted as the next state. One type serves all three.

The module holds the questions that the rest of the library asks of a value:

* `Value.same`: whether two values are equal. Truth values and numbers compare
  by number, lists and tuples item by item, maps entry by entry in whatever
  order, and a value of one sort never equals a value of another;
* `Value.insert`: what a map comes to with one more entry. Keys that are equal
  are one key;
* `Value.isTrue`: whether a setting counts as switched on;
* `Value.render`: the text of a value, in one of three forms.

Whether a value can be a key of a map or a member of a set is a matter of
hashes, and of `LexChain.Value.Hash`.
-/

set_option autoImplicit false

namespace LexChain

/-- A value whose callables are taken from `F`. -/
inductive Value (F : Type) where
  | none
  | bool (b : Bool)
  | int (n : Int)
  | float (x : Binary64)
  | str (s : String)
  | list (items : List (Value F))
  | tuple (items : List (Value F))
  /-- A map, by its keys with their values. -/
  | map (entries : List (Value F × Value F))
  | category (c : Category)
  /-- A foreign label, of which only the name is known. -/
  | named (name : Value F)
  | token (lexeme : Text) (label : Value F)
  | callable (f : F)
  | state (s : State F)

/-- How a value is put into words. -/
inductive Form where
  /-- As it stands in a sentence. -/
  | plain
  /-- As it is written down, with strings between marks. -/
  | quoted
  /-- As it heads a token: by its name, if it has one. -/
  | title
  deriving DecidableEq, Repr

namespace Value

variable {F : Type}

/-- A default category as a label. -/
def text : Value F := .category .text

/-- A state, or a callable wrapped into one. -/
def state? : Value F → Option (State F)
  | callable f => some (.of f)
  | state s => some s
  | _ => Option.none

/-- A callable or a state wrapped once more; other values cannot be wrapped. -/
def wrap? : Value F → Option (State F)
  | callable f => some (.of f)
  | state s => some s.wrap
  | _ => Option.none

/-- The callable that a callable or a state comes down to. -/
def callee? : Value F → Option F
  | callable f => some f
  | state s => some s.callee
  | _ => Option.none

/-- The word for the sort of a value. -/
def typeName : Value F → String
  | none => "NoneType"
  | bool _ => "bool"
  | int _ => "int"
  | float _ => "float"
  | str _ => "str"
  | list _ => "list"
  | tuple _ => "tuple"
  | map _ => "dict"
  | category _ => "Category"
  | named _ => "Named"
  | token _ _ => "Token"
  | callable _ => "function"
  | state _ => "StateFunction"

/-- The number that a value counts as, if any. -/
def number? : Value F → Option Number
  | bool b => some (.ofInt b.toInt)
  | int n => some (.ofInt n)
  | float x => some x.value
  | _ => Option.none

/-- Whether a value counts as a given number. -/
def isNumber (n : Number) (v : Value F) : Bool :=
  match v.number? with
  | some m => n.same m
  | Option.none => false

/-- Whether a setting counts as switched on: all values do but nothing, zero
and what is empty. -/
def isTrue : Value F → Bool
  | none => false
  | bool b => b
  | int n => n != 0
  | float x => !x.value.isZero
  | str s => s != ""
  | list items | tuple items => !items.isEmpty
  | map entries => !entries.isEmpty
  | _ => true

/-! ### Equality -/

mutual

/-- Whether two values are equal. -/
def same [BEq F] : Value F → Value F → Bool
  | none, v => match v with
    | none => true
    | _ => false
  -- Truth values are the numbers 0 and 1, and numbers are compared by value, whatever their
  -- types.
  | bool b, v => v.isNumber (.ofInt b.toInt)
  | int n, v => v.isNumber (.ofInt n)
  | float x, v => v.isNumber x.value
  | str s, v => match v with
    | str s' => s == s'
    | _ => false
  | list items, v => match v with
    | list items' => sameAll items items'
    | _ => false
  | tuple items, v => match v with
    | tuple items' => sameAll items items'
    | _ => false
  -- The order of the entries plays no part. With as many on both sides it is enough to look for
  -- those of one.
  | map entries, v => match v with
    | map entries' => entries.length == entries'.length && sameEntries entries entries'
    | _ => false
  | category c, v => match v with
    | category c' => c == c'
    | _ => false
  | named name, v => match v with
    | named name' => same name name'
    | _ => false
  | token lexeme label, v => match v with
    | token lexeme' label' => lexeme == lexeme' && same label label'
    | _ => false
  | callable f, v => match v with
    | callable f' => f == f'
    | _ => false
  | state s, v => match v with
    | state s' => s.same s'
    | _ => false

/-- Whether two sequences have equal items in equal places. -/
def sameAll [BEq F] : List (Value F) → List (Value F) → Bool
  | [], vs => vs.isEmpty
  | u :: us, vs => match vs with
    | [] => false
    | v :: vs => same u v && sameAll us vs

/-- Whether each entry of a map is found in another one, under an equal key with
an equal value. -/
def sameEntries [BEq F] :
    List (Value F × Value F) → List (Value F × Value F) → Bool
  | [], _ => true
  | (key, value) :: rest, entries =>
    (entries.any fun e => same key e.1 && same value e.2) && sameEntries rest entries

end

/-! ### Maps -/

/-- The entries of a map with one more: a key that is there already keeps its
place and takes the new value. -/
def insert [BEq F] (key value : Value F) :
    List (Value F × Value F) → List (Value F × Value F)
  | [] => [(key, value)]
  | e :: rest =>
    if e.1.same key then (e.1, value) :: rest else e :: insert key value rest

/-- The entries of a map that are found by a text. -/
def fields : Value F → List (String × Value F)
  | map entries => entries.filterMap fun e => match e.1 with
    | str key => some (key, e.2)
    | _ => Option.none
  | _ => []

/-! ### Text -/

/-- The longest lexeme that is shown whole. -/
def shownWhole : Nat := 20

/-- A lexeme as it is shown: cut to its first characters and three points when
it is long. -/
def clip (lexeme : Text) : Text :=
  if lexeme.length ≤ shownWhole then lexeme
  else lexeme.take (shownWhole - 3) ++ ['.', '.', '.']

/-- Items between commas. -/
def commaList (items : List String) : String := ", ".intercalate items

/-- A token's words around the title of its label. -/
def tokenText (lexeme : Text) (title : String) : String :=
  "Token(" ++ title ++ ", " ++ String.ofList (Text.Quoted.encode (clip lexeme)) ++ ")"

mutual

/-- A value in words. -/
def render [Callable F] : Form → Value F → String
  | _, none => "None"
  | _, bool b => if b then "True" else "False"
  | _, int n => toString n
  | _, float x => String.ofList x.toText
  | form, str s => match form with
    | .quoted => Text.Quoted.encodeString s
    | _ => s
  | _, list items => "[" ++ commaList (renderAll items) ++ "]"
  | _, tuple items => match renderAll items with
    | [item] => "(" ++ item ++ ",)"
    | shown => "(" ++ commaList shown ++ ")"
  | _, map entries => "\x7b" ++ commaList (renderEntries entries) ++ "\x7d"
  | form, category c => match form with
    | .plain => c.fullName
    | .quoted => c.description
    | .title => c.name
  | form, named name => match form with
    | .title => render .plain name
    | _ => "Named(" ++ render .quoted name ++ ")"
  | _, token lexeme label => tokenText lexeme (render .title label)
  | _, callable f => Callable.name f
  | form, state s => match form with
    | .title => s.name
    | _ => s.description

/-- Values as they are written down. -/
def renderAll [Callable F] : List (Value F) → List String
  | [] => []
  | v :: vs => render .quoted v :: renderAll vs

/-- Entries of a map as they are written down. -/
def renderEntries [Callable F] : List (Value F × Value F) → List String
  | [] => []
  | (key, value) :: rest =>
    (render .quoted key ++ ": " ++ render .quoted value) :: renderEntries rest

end

/-- A value as it is written down. -/
def written [Callable F] (v : Value F) : String := v.render .quoted

/-- The title of a label. -/
def title [Callable F] (v : Value F) : String := v.render .title

end Value

end LexChain
