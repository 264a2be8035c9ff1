import LexChain.Program.Exec
import LexChain.Session.Meaning

/-!
# `LexChain.Session.Play`: playing a session

Steps are played one after the other on one world. A fault ends only its step.
After each step a `Report` says what came of it: its reply or its fault, what
was reported meanwhile, which of the session's own states were entered and
where, how the current tokenizer stands, and which tokens it gained.
-/

set_option autoImplicit false

namespace LexChain.Session

/-- What came of a step. -/
structure Report where
  /-- The reply or the fault, or `none` when the fuel did not last. -/
  outcome : Option (Except Fault Reply)
  records : List (Record Callee)
  /-- The session's own states that were entered, and the cursors there. -/
  entries : List (String × Int)
  /-- Start, cursor and number of tokens of the current tokenizer. -/
  standing : Option (Int × Int × Nat)
  /-- The tokens that the current tokenizer gained in the step. -/
  gained : List (Token Callee)

/-- The world that a session begins with. -/
def beginning : World Callee Desk := { memory := {} }

/-- The fuel for a step, far more than the session's allowance lets it use up. -/
def supply : Nat := 1000000000

/-- The tokens of a tokenizer that it did not have in an earlier world; all of
them if it was created since. -/
def gainedSince (before after : World Callee Desk) (h : Handle) : List (Token Callee) :=
  let known := if before.memory.opened.contains h then (before.get h).emitted.length else 0
  (after.get h).tokens.drop known

/-- What came of a step that led from one world to another. -/
def report (outcome : Option (Except Fault Reply)) (before after : World Callee Desk) :
    Report where
  outcome
  records := after.records
  entries := after.entries.filterMap fun entry => entry.1.ownName?.map (·, entry.2)
  standing := after.memory.current.map fun h =>
    ((after.get h).start, (after.get h).position, (after.get h).emitted.length)
  gained := match after.memory.current with
    | some h => gainedSince before after h
    | none => []

/-- One step played on a world. -/
def playStep (definitions : List Definition) (w : World Callee Desk) (s : Step) :
    Report × World Callee Desk :=
  -- The journal starts anew, so that it holds what happens in this step.
  let before := { w with journal := [] }
  let program := s.meaning (.ofDefinitions definitions) current
  match (machine definitions).exec supply program before with
  | (some r, after) => (report (some r) before after, after)
  | (none, _) => (report none before before, before)

/-- Steps played in order on a world. -/
def playSteps (definitions : List Definition) : World Callee Desk → List Step → List Report
  | _, [] => []
  | w, s :: rest =>
    let (report, w') := playStep definitions w s
    report :: playSteps definitions w' rest

/-- The reports of a session's steps. -/
def play (definitions : List Definition) (steps : List Step) : List Report :=
  playSteps definitions beginning steps

end LexChain.Session
