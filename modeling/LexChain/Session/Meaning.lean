import LexChain.Ini.States
import LexChain.Session.Roster
import LexChain.Value.Resolve

/-!
# `LexChain.Session.Meaning`: what steps and statements do

Each step of a session is a program that ends in a `Reply`, and each body of a
defined state is a program that ends in the value handed back. The programs
share a `Desk` as their memory: the tokenizers that were created, in order, the
current one, the lists of tokens that were taken, the names of the defined states
that were entered, the latest first, and how much of the session's allowance is
spent. Each entry into a defined state and each round of a loop takes one unit,
so that every session ends.

A step that stands in a body works on the tokenizer that the state was called
with, and its reply is passed over; a step of the session works on the current
tokenizer. `machine` puts the bodies and the states of the settings-file lexer
together.
-/

set_option autoImplicit false

namespace LexChain.Session

/-- The memory of a session. -/
structure Desk where
  opened : List Handle := []
  current : Option Handle := none
  kept : List ListId := []
  entered : List String := []
  spent : Nat := 0

/-- A program of a session. -/
abbrev Act := Program Callee Desk

/-- What a step replies. -/
inductive Reply where
  | done
  | count (n : Nat)
  | answer (q : Query) (a : q.Answer Callee)
  | lines (items : List String)
  | tokens (items : List (Token Callee))
  | value (v : Value Callee)
  | described (name description : String)
  /-- Whether two values are equal, whether they are once wrapped, whether their
  hashes then are, if they are equal, and whether the first one, wrapped, equals
  the second. -/
  | compared (bare wrapped : Bool) (hashes : Option Bool) (mixed : Bool)
  | settings (s : Settings Callee)
  | list (replies : List Reply)

/-! ### Names -/

/-- The value of a name. -/
def find (roster : Roster) (name : String) : Act (Value Callee) :=
  Program.ofExcept (roster.find name)

/-- A literal's value. -/
def evaluate (roster : Roster) (v : Literal) : Act (Value Callee) :=
  Program.ofExcept (v.resolve roster.deref)

/-- The settings that a literal's value holds. -/
def readSettings (roster : Roster) (source : Literal) : Act (Settings Callee) := do
  Program.ofExcept (Settings.read (← evaluate roster source))

/-- A command whose label is written down. -/
def command (roster : Roster) : Command Reference → Act (Command Callee)
  | .advance => return .advance
  | .tokenize label => return .tokenize (← evaluate roster label)
  | .tokenizeNext amount label => return .tokenizeNext amount (← evaluate roster label)
  | .consumeBlanks => return .consumeBlanks
  | .setPosition i => return .setPosition i
  | .setStart i => return .setStart i

/-! ### The desk -/

/-- The current tokenizer. -/
def current : Act Handle := do
  match (← Program.memory).current with
  | some h => return h
  | none => Program.fail .noTokenizer

/-- How many entries into states and rounds of loops a session may make, taken
together. -/
def allowance : Nat := 20000

/-- Account for one entry or round. -/
def spend : Act Unit := do
  let desk ← Program.memory
  if desk.spent < allowance then
    Program.remember { desk with spent := desk.spent + 1 }
  else Program.fail .exhausted

/-- A new tokenizer, which becomes the current one, and its number. -/
def openNew (source : Text) : Act Nat := do
  let h ← Program.create source
  let desk ← Program.memory
  Program.remember { desk with opened := desk.opened ++ [h], current := some h }
  return desk.opened.length

/-- The ordinary position that a signed one stands for in a list. -/
def index (length : Nat) (i : Int) : Act Nat :=
  match Text.index? length i with
  | some k => return k
  | none => Program.fail (.noItem i)

/-- Take a list of a tokenizer's tokens, and its number among those taken. -/
def take (h : Handle) : Act Nat := do
  let k ← Program.hold h
  let desk ← Program.memory
  Program.remember { desk with kept := desk.kept ++ [k] }
  return desk.kept.length

/-- The list with a number among those taken. -/
def taken (i : Int) : Act ListId := do
  let desk ← Program.memory
  return desk.kept.getD (← index desk.kept.length i) 0

/-! ### Steps -/

/-- Move the cursor a number of characters, or up to the end of the text. -/
def advanceTimes (h : Handle) : Nat → Act Unit
  | 0 => return ()
  | n + 1 => do
    if ← Program.ask h .hasMore then
      Program.tell h .advance
      advanceTimes h n

/-- A question put as a step. -/
def question (h : Handle) (q : Query) : Act Reply := do
  return .answer q (← Program.ask h q)

/-- The scope of a block. -/
def scope (roster : Roster) : Block → Act (Scope Callee)
  | .given source => return .given (← readSettings roster source)
  | .copied => return .copied
  | .fresh => return .fresh

/-- The state of a name, read off its value. -/
def findState (roster : Roster) (read : Value Callee → Option (State Callee))
    (name : String) : Act (State Callee) := do
  match read (← find roster name) with
  | some s => return s
  | none => Program.fail (.unknownState name)

mutual

/-- What a step does. `target` yields the tokenizer that it works on. -/
def Step.meaning (roster : Roster) (target : Act Handle) : Step → Act Reply
  | .create source => return .count (← openNew source)
  | .select i => do
    let desk ← Program.memory
    let k ← index desk.opened.length i
    Program.remember { desk with current := desk.opened[k]? }
    return .done
  | .advance times => do
    advanceTimes (← target) times.toNat
    return .done
  | .ask q => do question (← target) q
  | .look => do
    let h ← target
    let answers ← [Query.hasMore, .current, .next, .nextNonBlank, .pending].mapM (question h)
    return .list answers
  | .reprs => do
    let tokens ← Program.ask (← target) .tokens
    return .lines (tokens.map Token.render)
  | .tell c => do
    let h ← target
    Program.tell h (← command roster c)
    return .done
  | .hold => do return .count (← take (← target))
  | .held i => do return .tokens (← Program.held (← taken i))
  | .clearHeld i => do
    Program.clear (← taken i)
    return .done
  | .run initial => do
    let h ← target
    return .tokens (← Program.run h (← evaluate roster initial))
  | .lex source initial => do
    let v ← evaluate roster initial
    return .tokens (← Program.lex source v)
  | .call name => do
    let h ← target
    match Program.callValue? (← find roster name) h with
    | some p => return .value (← p)
    | none => Program.fail (.unknownState name)
  | .describe name => do
    let s ← findState roster Value.state? name
    return .described s.name s.description
  | .compare a b => do
    let x ← find roster a
    let y ← find roster b
    let x' : Value Callee := .state (← findState roster Value.wrap? a)
    let y' : Value Callee := .state (← findState roster Value.wrap? b)
    let hashes := do return (← x'.hash .standard) == (← y'.hash .standard)
    let wrapped := x'.same y'
    return .compared (x.same y) wrapped (if wrapped then hashes.toOption else none) (x'.same y)
  | .configure source => do
    Program.configure (← readSettings roster source)
    return .done
  | .reset => do
    Program.configure .default
    return .done
  | .settings => return .settings (← Program.settings)
  | .within block steps => do
    let scope ← scope roster block
    return .list (← Program.within scope (Step.meanings roster target steps))

/-- What steps do one after the other. -/
def Step.meanings (roster : Roster) (target : Act Handle) : List Step → Act (List Reply)
  | [] => return []
  | s :: rest => do
    let reply ← Step.meaning roster target s
    return reply :: (← Step.meanings roster target rest)

end

/-! ### Bodies -/

/-- Whether a character was found and is one of the given ones. -/
def isOneOf (cs : List Char) (c : Option Char) : Bool := c.any cs.contains

/-- Whether a condition holds for a tokenizer, in the state of the given name. -/
def Condition.meaning (self : String) (h : Handle) : Condition → Act Bool
  | .always => return true
  | .more => Program.ask h .hasMore
  | .currentIn cs => return isOneOf cs (← Program.ask h .current)
  | .nextIn cs => return isOneOf cs (← Program.ask h .next)
  | .nextNonBlankIn cs => return isOneOf cs (← Program.ask h .nextNonBlank)
  | .atBlank => do
    let c ← Program.ask h .current
    return c.any Text.isBlank
  | .startsWith s => Program.ask h (.startsWith s)
  | .pendingIs s => do
    let pending ← Program.ask h .pending
    return pending == s
  | .before i => do
    let position ← Program.ask h .position
    return decide (position < i)
  | .enteredLess n => do
    let desk ← Program.memory
    return decide ((desk.entered.count self : Int) < n)
  | .not c => return !(← c.meaning self h)
  | .both c d => do
    if ← c.meaning self h then d.meaning self h else return false

mutual

/-- What a statement does, and the value that the state is left with, if it is
left. -/
def Statement.meaning (roster : Roster) (self : String) (h : Handle) :
    Statement → Act (Option (Value Callee))
  | .leave v => return some (← evaluate roster v)
  | .fail alarm text => Program.fail (.raised alarm text)
  | .choose c yes no => do
    if ← c.meaning self h then Statement.meanings roster self h yes
    else Statement.meanings roster self h no
  | .loop c body =>
    Program.iterate (fun _ => do
      if ← c.meaning self h then
        spend
        match ← Statement.meanings roster self h body with
        | some v => return .inr (some v)
        | none => return .inl ()
      else return .inr none) ()
  | .step s => do
    let _ ← s.meaning roster (return h)
    return none

/-- What statements do in order, up to the first that leaves the state. -/
def Statement.meanings (roster : Roster) (self : String) (h : Handle) :
    List Statement → Act (Option (Value Callee))
  | [] => return none
  | s :: rest => do
    match ← Statement.meaning roster self h s with
    | some v => return some v
    | none => Statement.meanings roster self h rest

end

/-- What a defined state does: its entry is counted, then its body runs, and
nothing is handed back at the end of the body. -/
def Definition.meaning (roster : Roster) (d : Definition) (h : Handle) :
    Act (Value Callee) := do
  spend
  Program.update fun desk => { desk with entered := d.name :: desk.entered }
  match ← Statement.meanings roster d.name h d.body with
  | some v => return v
  | none => return .none

/-- What the callables of a session do. -/
def machine (definitions : List Definition) : Machine Callee Desk
  | .ini s, h => Ini.body .ini s h
  | .defined name, h | .anonymous name, h =>
    match definitions.reverse.find? (·.name == name) with
    | some d => d.meaning (.ofDefinitions definitions) h
    | none => Program.fail (.unknownState name)

end LexChain.Session
