import LexChain.Program

/-!
# `LexChain.Program.Exec`: executing programs and driving chains

An `Execution` of an `α` takes a world to a result or a fault, or to `none` when
the fuel did not last, and to the world that it left. After an execution that
ran out of fuel this is the world at that moment, so what it did up to there is
known as well. `Program.exec` executes a program, given what calling a callable
does; `Machine.enter` says that, and uses up one unit of fuel per nested call;
`Machine.exec` puts the two together.

`Chain.run` drives a chain of states over a tokenizer. It checks the value that
it starts from, also if there is nothing to lex. Then, as long as there is a
state and a character left, it calls the state, checks the value handed back and
reports the transition. When the chain has stopped it warns of text that is
still pending. The settings that decide about the reports are those in force
when the run began. One unit of fuel goes into each call.
-/

set_option autoImplicit false

namespace LexChain

variable {F M α β σ : Type}

/-- A computation on worlds that may fail or run out of fuel. -/
abbrev Execution (F M α : Type) := World F M → Option (Except Fault α) × World F M

namespace Execution

/-- A result at once. -/
def pure (a : α) : Execution F M α := fun w => (some (.ok a), w)

/-- A fault at once. -/
def fail (e : Fault) : Execution F M α := fun w => (some (.error e), w)

/-- One execution, then another that depends on its result. -/
def bind (x : Execution F M α) (k : α → Execution F M β) : Execution F M β := fun w =>
  match x w with
  | (none, w') => (none, w')
  | (some (.error e), w') => (some (.error e), w')
  | (some (.ok a), w') => k a w'

/-- An execution with its fault as a value. -/
def attempt (x : Execution F M α) : Execution F M (Except Fault α) := fun w =>
  match x w with
  | (none, w') => (none, w')
  | (some r, w') => (some (.ok r), w')

/-- A step repeated until it yields a result, at most as often as there is fuel. -/
def iterate (step : σ → Execution F M (σ ⊕ α)) : Nat → σ → Execution F M α
  | 0, _ => fun w => (none, w)
  | fuel + 1, s => (step s).bind (Sum.elim (iterate step fuel) pure)

/-- An execution in a scope of its own. -/
def within (scope : Scope F) (x : Execution F M α) : Execution F M α := fun w =>
  let left := x { w with settings := scope.entry w.settings }
  (left.1, { left.2 with settings := w.settings })

/-- With a result at hand the rest goes on. -/
theorem bind_of_ok {x : Execution F M α} {w w' : World F M} {a : α}
    (hx : x w = (some (.ok a), w')) (k : α → Execution F M β) : x.bind k w = k a w' := by
  simp only [bind, hx]

/-- A fault ends the whole. -/
theorem bind_of_error {x : Execution F M α} {w w' : World F M} {e : Fault}
    (hx : x w = (some (.error e), w')) (k : α → Execution F M β) :
    x.bind k w = (some (.error e), w') := by
  simp only [bind, hx]

/-- An execution that runs out of fuel leaves nothing to go on with. -/
theorem bind_of_none {x : Execution F M α} {w w' : World F M}
    (hx : x w = (none, w')) (k : α → Execution F M β) : x.bind k w = (none, w') := by
  simp only [bind, hx]

/-- It does not matter which two of three executions are put together first. -/
theorem bind_assoc {γ : Type} (x : Execution F M α) (k : α → Execution F M β)
    (l : β → Execution F M γ) : (x.bind k).bind l = x.bind fun a => (k a).bind l := by
  funext w
  unfold bind
  rcases x w with ⟨_ | e | a, w'⟩ <;> rfl

/-- To hand on the result changes nothing. -/
theorem bind_pure (x : Execution F M α) : x.bind pure = x := by
  funext w
  unfold bind
  rcases x w with ⟨_ | e | a, w'⟩ <;> rfl

/-- A round of a loop, and then the others if it yields no result. -/
theorem iterate_succ (step : σ → Execution F M (σ ⊕ α)) (fuel : Nat) (s : σ) :
    iterate step (fuel + 1) s = (step s).bind (Sum.elim (iterate step fuel) pure) :=
  rfl

end Execution

/-! ### Chains of states -/

/-- The state that a value stands for as the next one, `none` at the end of a
chain. `source` is the name of the state that handed it over. -/
def Value.asState (source : String) : Value F → Except Fault (Option (State F))
  | none => .ok Option.none
  | callable f => .ok (some (.of f))
  | state s => .ok (some s)
  | v => .error (.notAState source v.typeName)

namespace Chain

variable [Callable F]

/-- The name in place of a state's for the value that a run starts from. -/
def initialName : String := "<initial>"

/-- The end of a chain: a warning if text is still pending, and the tokens. -/
def stop (settings : Settings F) (h : Handle) : Execution F M (List (Token F)) := fun w =>
  let t := w.get h
  let w' :=
    if settings.warns && t.start != t.position then
      w.report h (.dropped t.pending t.start t.position)
    else w
  (some (.ok t.tokens), w')

/-- The world after the transition from one state to the next, or to the end. -/
def arrive (settings : Settings F) (h : Handle) (source : State F)
    (target : Option (State F)) (w : World F M) : World F M :=
  if settings.tracesStates then
    w.report h (.moved source.name (target.map State.name) (w.get h).position)
  else w

/-- What becomes of the value that a state hands back: it is checked, and the
transition is reported. -/
def receive (settings : Settings F) (h : Handle) (s : State F) (v : Value F) :
    Execution F M (Option (State F)) := fun w =>
  match v.asState s.name with
  | .error e => (some (.error e), w)
  | .ok target => (some (.ok target), arrive settings h s target w)

/-- One link of a chain: a state is called and hands back a value. -/
def link (enter : F → Handle → Execution F M (Value F)) (settings : Settings F)
    (h : Handle) (s : State F) : Execution F M (Option (State F)) :=
  (s.call enter h).bind (receive settings h s)

/-- What is called in the end is the callable inside all wrappings. -/
theorem link_eq (enter : F → Handle → Execution F M (Value F)) (settings : Settings F)
    (h : Handle) (s : State F) :
    link enter settings h s = (enter s.callee h).bind (receive settings h s) := by
  rw [link, State.call_eq]

/-- A chain at a state, or at its end. It stops with no state or no character left,
and goes on otherwise. -/
def proceed (settings : Settings F) (h : Handle)
    (onward : State F → Execution F M (List (Token F))) :
    Option (State F) → Execution F M (List (Token F))
  | none => stop settings h
  | some s => fun w => if (w.get h).hasMore then onward s w else stop settings h w

/-- A chain followed from a state on, for at most as many calls as there is fuel. It
takes no fuel to stop. -/
def follow (enter : F → Handle → Execution F M (Value F)) (settings : Settings F)
    (h : Handle) : Nat → Option (State F) → Execution F M (List (Token F))
  | 0 => proceed settings h fun _ w => (none, w)
  | fuel + 1 => proceed settings h fun s =>
    (link enter settings h s).bind (follow enter settings h fuel)

/-- With no character left a chain stops at any state. -/
theorem follow_of_not_hasMore (enter : F → Handle → Execution F M (Value F))
    (settings : Settings F) {h : Handle} (fuel : Nat) (s : State F) {w : World F M}
    (hmore : (w.get h).hasMore = false) :
    follow enter settings h fuel (some s) w = stop settings h w := by
  cases fuel <;> simp [follow, proceed, hmore]

/-- With a character left there is a link, and then the chain goes on. -/
theorem follow_of_hasMore (enter : F → Handle → Execution F M (Value F))
    (settings : Settings F) {h : Handle} (fuel : Nat) (s : State F) {w : World F M}
    (hmore : (w.get h).hasMore = true) :
    follow enter settings h (fuel + 1) (some s) w
      = (link enter settings h s).bind (follow enter settings h fuel) w := by
  simp [follow, proceed, hmore]

/-- A chain driven over a tokenizer, from a value on. -/
def run (enter : F → Handle → Execution F M (Value F)) (fuel : Nat) (h : Handle)
    (initial : Value F) : Execution F M (List (Token F)) := fun w =>
  match initial.asState initialName with
  | .error e => (some (.error e), w)
  | .ok s => follow enter w.settings h fuel s w

end Chain

/-! ### Programs -/

/-- A program executed, given what calling a callable does. -/
def Program.exec [Callable F] (enter : F → Handle → Execution F M (Value F)) (fuel : Nat) :
    {α : Type} → Program F M α → Execution F M α
  | _, .pure a => Execution.pure a
  | _, .bind p k => (p.exec enter fuel).bind fun a => (k a).exec enter fuel
  | _, .fail e => Execution.fail e
  | _, .attempt p => (p.exec enter fuel).attempt
  -- Rounds of a loop and nested calls draw on the same bound, but one does not use up the
  -- other.
  | _, .iterate step seed =>
    Execution.iterate (fun s => (step s).exec enter fuel) fuel seed
  | _, .create source => fun w => let made := w.create source; (some (.ok made.1), made.2)
  | _, .ask h q => fun w => let asked := w.ask h q; (some asked.1, asked.2)
  | _, .tell h c => fun w => let told := w.tell h c; (some told.1, told.2)
  | _, .run h initial => Chain.run enter fuel h initial
  | _, .call f h => enter f h
  | _, .hold h => fun w => let taken := w.hold h; (some (.ok taken.1), taken.2)
  | _, .held k => fun w => (some (.ok (w.held k)), w)
  | _, .clear k => fun w => (some (.ok ()), w.clear k)
  | _, .settings => fun w => (some (.ok w.settings), w)
  | _, .configure s => fun w => (some (.ok ()), { w with settings := s })
  -- Only the settings are local to a scope. What its program does to tokenizers and memory
  -- stays.
  | _, .within scope p => (p.exec enter fuel).within scope
  | _, .memory => fun w => (some (.ok w.memory), w)
  | _, .remember m => fun w => (some (.ok ()), { w with memory := m })

/-- What calling a callable does: the entry is noted, then its program runs. -/
def Machine.enter [Callable F] (machine : Machine F M) :
    Nat → F → Handle → Execution F M (Value F)
  | 0, _, _, w => (none, w)
  | fuel + 1, f, h, w =>
    (machine f h).exec (machine.enter fuel) fuel
      (w.note (.entered f h (w.get h)))

/-- A program executed on a machine. -/
def Machine.exec [Callable F] (machine : Machine F M) (fuel : Nat)
    (p : Program F M α) : Execution F M α :=
  p.exec (machine.enter fuel) fuel

end LexChain
