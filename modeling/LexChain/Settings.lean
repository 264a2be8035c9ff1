import LexChain.Fault
import LexChain.Value

/-!
# `LexChain.Settings`: what is reported

Settings only control reporting: whether state transitions and emitted tokens
are traced, and whether a warning says that text was dropped. Each of the three
may hold any value and counts as switched on if `Value.isTrue` says so.

Settings are read from a map, where keys that name no setting are passed
over (`ofEntries`), or given as arguments, where the first such key is a fault
(`ofArguments`). `set?_eq_none_iff` says which keys these are.
-/

set_option autoImplicit false

namespace LexChain

/-- The three settings. -/
structure Settings (F : Type) where
  traceStates : Value F := .bool false
  traceTokens : Value F := .bool false
  warnOnDropped : Value F := .bool true

namespace Settings

variable {F : Type}

/-- Nothing is traced, and dropped text is warned about. -/
def default : Settings F := {}

/-- The keys of the settings in order. -/
def keys : List String := ["trace_states", "trace_tokens", "warn_on_dropped"]

/-- The settings with one of them changed, or `none` if the key names none. -/
def set? (s : Settings F) (key : String) (v : Value F) : Option (Settings F) :=
  if key = "trace_states" then some { s with traceStates := v }
  else if key = "trace_tokens" then some { s with traceTokens := v }
  else if key = "warn_on_dropped" then some { s with warnOnDropped := v }
  else none

/-- A key names no setting exactly when it is none of the three. -/
theorem set?_eq_none_iff {s : Settings F} {key : String} {v : Value F} :
    s.set? key v = none ↔ key ∉ keys := by
  unfold set? keys
  by_cases h₁ : key = "trace_states" <;> by_cases h₂ : key = "trace_tokens" <;>
    by_cases h₃ : key = "warn_on_dropped" <;> simp [h₁, h₂, h₃]

/-- The default settings changed by a mapping; other keys are passed over. -/
def ofEntries (entries : List (String × Value F)) : Settings F :=
  entries.foldl (fun s entry => (s.set? entry.1 entry.2).getD s) default

/-- The argument that the new settings themselves take up. -/
def receiver : String := "self"

/-- Why a key that names no setting is refused as an argument. -/
def refusal (key : String) : Fault :=
  if key = receiver then .givenTwice key else .unknownSetting key

/-- The default settings changed by arguments; other keys are refused. -/
def ofArguments (arguments : List (String × Value F)) : Except Fault (Settings F) :=
  arguments.foldlM
    (fun s argument => match s.set? argument.1 argument.2 with
      | some s' => .ok s'
      | none => .error (refusal argument.1))
    default

/-- The settings that a value holds; only a map holds any, under keys that are
texts. -/
def read : Value F → Except Fault (Settings F)
  | .map entries => .ok (ofEntries (Value.map entries).fields)
  | v => .error (.notAMapping v.typeName)

/-- The three values in order. -/
def toList (s : Settings F) : List (Value F) :=
  [s.traceStates, s.traceTokens, s.warnOnDropped]

/-- Whether the settings are equal to the default ones. -/
def isDefault [BEq F] (s : Settings F) : Bool :=
  Value.sameAll s.toList (default : Settings F).toList

/-- The settings in words. -/
def render [Callable F] (s : Settings F) : String :=
  "LexConfig(trace_states=" ++ s.traceStates.written ++ ", trace_tokens=" ++
    s.traceTokens.written ++ ", warn_on_dropped=" ++ s.warnOnDropped.written ++ ")"

/-- Whether state transitions are traced. -/
def tracesStates (s : Settings F) : Bool := s.traceStates.isTrue

/-- Whether emitted tokens are traced. -/
def tracesTokens (s : Settings F) : Bool := s.traceTokens.isTrue

/-- Whether dropped text is warned about. -/
def warns (s : Settings F) : Bool := s.warnOnDropped.isTrue

end Settings

end LexChain
