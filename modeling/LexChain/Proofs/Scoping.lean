import LexChain.Ini.States
import LexChain.Proofs.Log
import LexChain.Proofs.Turns

/-!
# `LexChain.Proofs.Scoping`: executions keep the law of scopes

`Machine.account` is what an execution does with the settings in force, in the order of the
execution: by the program itself, by the states that are called, by the chains that these drive
in turn, up to the fault or the end of the fuel, if it comes to that. `Machine.exec_obeys` says
that it keeps the law of scopes and leads to the settings that the execution leaves. It rests on
one lemma for each way to put executions together, and does not depend on the outcome: a fault
passes through a scope as a result does.

`settings_keep_scopes` draws the conclusions. A scope with given settings, in particular, is the
same as keeping the settings in force aside, replacing them, and setting them again whatever
comes of the part in between (`Program.exec_guarded`).
-/

set_option autoImplicit false

namespace LexChain

variable {F M α β σ : Type}

/-- What is done with the settings in force, from each world on. -/
abbrev Account (F M : Type) := Log F M (Turn F)

/-- The account of a chain followed from a state on. -/
def Chain.accountFrom [Callable F] (enter : F → Handle → Execution F M (Value F))
    (visit : F → Handle → Account F M) (settings : Settings F) (h : Handle) :
    Nat → Option (State F) → Account F M
  | fuel + 1, some s => fun w =>
    if (w.get h).hasMore then
      (visit s.callee h).andThen (link enter settings h s)
        (accountFrom enter visit settings h fuel) w
    else []
  | _, _ => fun _ => []

/-- The account of a run. First of all it looks up the settings. -/
def Chain.account [Callable F] (enter : F → Handle → Execution F M (Value F))
    (visit : F → Handle → Account F M) (fuel : Nat) (h : Handle) (initial : Value F) :
    Account F M := fun w => .found w.settings ::
  match initial.asState initialName with
  | .error _ => []
  | .ok s => accountFrom enter visit w.settings h fuel s w

/-- The account of a program, given what calling a callable does and its account. Who creates
a tokenizer looks up the settings as well. -/
def Program.account [Callable F] (enter : F → Handle → Execution F M (Value F))
    (visit : F → Handle → Account F M) (fuel : Nat) : {α : Type} → Program F M α → Account F M
  | _, .bind p k =>
    (p.account enter visit fuel).andThen (p.exec enter fuel) fun a => (k a).account enter visit fuel
  | _, .attempt p => p.account enter visit fuel
  | _, .iterate step seed =>
    Log.iterate (fun s => (step s).account enter visit fuel)
      (fun s => (step s).exec enter fuel) fuel seed
  | _, .run h initial => Chain.account enter visit fuel h initial
  | _, .call f h => visit f h
  | _, .create _ | _, .settings => fun w => [.found w.settings]
  | _, .configure s => fun _ => [.replaced s]
  | _, .within scope p => fun w =>
    [.inside scope (p.account enter visit fuel { w with settings := scope.entry w.settings })]
  | _, .pure _ | _, .fail _ | _, .ask _ _ | _, .tell _ _ | _, .hold _ | _, .held _ | _, .clear _
  | _, .memory | _, .remember _ => fun _ => []

/-- The account of a call. -/
def Machine.visit [Callable F] (machine : Machine F M) : Nat → F → Handle → Account F M
  | 0, _, _ => fun _ => []
  | fuel + 1, f, h => fun w =>
    (machine f h).account (machine.enter fuel) (machine.visit fuel) fuel
      (w.note (.entered f h (w.get h)))

/-- The account of a program executed on a machine. -/
def Machine.account [Callable F] (machine : Machine F M) (fuel : Nat) (p : Program F M α) :
    Account F M :=
  p.account (machine.enter fuel) (machine.visit fuel) fuel

/-! ### Accounts keep the law -/

/-- Turns lead from the settings of one world to those of another, and keep the law of scopes. -/
def World.Obeys (w : World F M) (turns : List (Turn F)) (v : World F M) : Prop :=
  Turn.Leads w.settings turns v.settings

/-- The law of turns holds of no turn at all, and of turns that follow one another. -/
theorem World.obeys_isLaw : Log.IsLaw (World.Obeys (F := F) (M := M)) where
  nil _ := .nil _
  append hes hfs := hes.append hfs

/-- The account of an execution keeps the law of scopes, and leads to the settings that the
execution leaves, whatever its outcome. -/
abbrev Execution.Obeys (x : Execution F M α) (l : Account F M) : Prop := x.Keeps World.Obeys l

namespace Execution

/-- Without a turn the settings have to stay. -/
theorem obeys_of_settings_eq {x : Execution F M α}
    (hx : ∀ w : World F M, (x w).2.settings = w.settings) : x.Obeys fun _ => [] := by
  intro w
  unfold World.Obeys
  rw [hx w]
  exact .nil _

/-- Whatever a part does in a scope, the settings before it are in force again. -/
theorem Obeys.within {x : Execution F M α} {l : Account F M} (hx : x.Obeys l) (scope : Scope F) :
    (x.within scope).Obeys fun w =>
      [.inside scope (l { w with settings := scope.entry w.settings })] :=
  fun w => .inside (hx { w with settings := scope.entry w.settings }) (.nil _)

end Execution

namespace Chain

/-- A chain that stops leaves the settings as they are. -/
theorem settings_stop (settings : Settings F) (h : Handle) (w : World F M) :
    (stop settings h w).2.settings = w.settings := by
  unfold stop
  dsimp only
  split <;> rfl

variable [Callable F] {enter : F → Handle → Execution F M (Value F)}
  {visit : F → Handle → Account F M}

/-- A chain that goes on with a value handed back leaves the settings as they are. -/
theorem settings_receive (settings : Settings F) (h : Handle) (s : State F) (v : Value F)
    (w : World F M) : (receive settings h s v w).2.settings = w.settings := by
  unfold receive arrive
  split
  · rfl
  · dsimp only
    split <;> rfl

/-- Of a link only the call changes the settings. -/
theorem settings_link (settings : Settings F) (h : Handle) (s : State F) (w : World F M) :
    (link enter settings h s w).2.settings = (enter s.callee h w).2.settings := by
  rw [link_eq]
  rcases hcall : enter s.callee h w with ⟨_ | e | v, left⟩
  · rw [Execution.bind_of_none hcall]
  · rw [Execution.bind_of_error hcall]
  · rw [Execution.bind_of_ok hcall, settings_receive]

/-- A chain keeps the law from any state on, if calls do. By induction on the fuel. -/
theorem obeys_follow (henter : ∀ f h, (enter f h).Obeys (visit f h)) (settings : Settings F)
    (h : Handle) (fuel : Nat) (s : Option (State F)) :
    (follow enter settings h fuel s).Obeys (accountFrom enter visit settings h fuel s) := by
  have hstop := Execution.obeys_of_settings_eq (M := M) (settings_stop settings h)
  -- Induction on the links still allowed. A link leaves the settings as the call of its state
  -- left them, and the report at the end changes none.
  induction fuel generalizing s with
  | zero =>
      cases s with
      | none => exact hstop
      | some s =>
          intro w
          unfold follow proceed
          dsimp only
          split
          · exact .nil _
          · exact hstop w
  | succ fuel ih =>
      cases s with
      | none => exact hstop
      | some s =>
          intro w
          unfold accountFrom
          split
          · next hmore =>
              have hlink : (link enter settings h s).Obeys (visit s.callee h) := by
                intro w
                unfold World.Obeys
                rw [settings_link settings h s w]
                exact henter s.callee h w
              rw [follow_of_hasMore enter settings fuel s hmore]
              exact hlink.bind World.obeys_isLaw ih w
          · next hmore =>
              rw [follow_of_not_hasMore enter settings _ s (by simpa using hmore)]
              exact hstop w

/-- A run from any value on keeps the law if calls do. -/
theorem obeys_run (henter : ∀ f h, (enter f h).Obeys (visit f h)) (fuel : Nat) (h : Handle)
    (initial : Value F) :
    (run enter fuel h initial).Obeys (account enter visit fuel h initial) := by
  intro w
  unfold run account
  refine .found ?_
  cases initial.asState initialName with
  | error e => exact .nil _
  | ok s => exact obeys_follow henter w.settings h fuel s w

end Chain

variable [Callable F]

/-- A program keeps the law if calls do. -/
theorem Program.exec_obeys {enter : F → Handle → Execution F M (Value F)}
    {visit : F → Handle → Account F M} (henter : ∀ f h, (enter f h).Obeys (visit f h))
    (fuel : Nat) (p : Program F M α) :
    (p.exec enter fuel).Obeys (p.account enter visit fuel) := by
  induction p with
  | bind p k ihp ihk => exact ihp.bind World.obeys_isLaw ihk
  | attempt p ih => exact ih.attempt
  | iterate step seed ih => exact .iterate World.obeys_isLaw ih fuel seed
  | run h initial => exact Chain.obeys_run henter fuel h initial
  | call f h => exact henter f h
  | create source => exact fun _ => .found (.nil _)
  | settings => exact fun _ => .found (.nil _)
  | configure s => exact fun _ => .replaced (.nil _)
  | within scope p ih => exact ih.within scope
  | pure | fail | ask | tell | hold | held | clear | memory | remember =>
      exact Execution.obeys_of_settings_eq fun _ => rfl

/-- A call keeps the law. By induction on the fuel: the program of the callable has one unit
less. -/
theorem Machine.enter_obeys (machine : Machine F M) (fuel : Nat) (f : F) (h : Handle) :
    (machine.enter fuel f h).Obeys (machine.visit fuel f h) := by
  induction fuel generalizing f h with
  | zero => exact Execution.obeys_of_settings_eq fun _ => rfl
  | succ fuel ih =>
      exact fun w => Program.exec_obeys ih fuel (machine f h) (w.note (.entered f h (w.get h)))

/-- **Every execution keeps the law of scopes**, on every machine, with any amount of fuel and
whatever comes of it. -/
theorem Machine.exec_obeys (machine : Machine F M) (fuel : Nat) (p : Program F M α) :
    (machine.exec fuel p).Obeys (machine.account fuel p) :=
  Program.exec_obeys (machine.enter_obeys fuel) fuel p

/-! ### Scopes -/

namespace Program

/-- A program in scopes one inside the other, the outermost first. -/
def nested (scopes : List (Scope F)) (p : Program F M α) : Program F M α :=
  scopes.foldr within p

/-- A program under given settings, with those in force kept aside and set again, whether it
ends with a result or with a fault. -/
def guarded (s : Settings F) (p : Program F M α) : Program F M α := do
  let previous ← settings
  configure s
  let outcome ← attempt p
  configure previous
  ofExcept outcome

variable (enter : F → Handle → Execution F M (Value F)) (fuel : Nat)

/-- What comes of the innermost part passes through all scopes, and leaves the settings that
were in force outside. -/
theorem exec_nested (scope : Scope F) (scopes : List (Scope F)) (p : Program F M α)
    (w : World F M) : (nested (scope :: scopes) p).exec enter fuel w =
      let left := p.exec enter fuel
        { w with settings := (scope :: scopes).foldl Scope.entry w.settings }
      (left.1, { left.2 with settings := w.settings }) := by
  induction scopes generalizing scope w with
  | nil => rfl
  | cons scope' scopes ih =>
      have hinner := ih scope' { w with settings := scope.entry w.settings }
      show ((nested (scope' :: scopes) p).exec enter fuel).within scope w = _
      unfold Execution.within
      rw [hinner]
      rfl

/-- A result or a fault at hand is what comes of it. -/
theorem exec_ofExcept (r : Except Fault α) (w : World F M) :
    (ofExcept r).exec enter fuel w = (some r, w) := by
  cases r <;> rfl

/-- **A scope with given settings keeps those in force aside and sets them again**, if the
fuel lasts that long. -/
theorem exec_guarded (s : Settings F) (p : Program F M α) (w : World F M)
    (hends : (p.exec enter fuel { w with settings := s }).1.isSome) :
    (guarded s p).exec enter fuel w = (within (.given s) p).exec enter fuel w := by
  obtain ⟨r, hr⟩ := Option.isSome_iff_exists.mp hends
  -- The attempt always goes on, so the settings are put back whether the body failed or not. It
  -- does not go on from a body that never ends.
  have hattempt : (p.exec enter fuel).attempt { w with settings := s }
      = (some (.ok r), (p.exec enter fuel { w with settings := s }).2) := by
    unfold Execution.attempt
    rw [← Prod.eta (p.exec enter fuel { w with settings := s }), hr]
  show ((p.exec enter fuel).attempt.bind fun outcome => _) { w with settings := s } = _
  rw [Execution.bind_of_ok hattempt]
  refine (exec_ofExcept enter fuel r _).trans ?_
  show _ = (p.exec enter fuel).within (.given s) w
  unfold Execution.within
  rw [← hr]
  rfl

end Program

/-- **Settings keep to their scopes.** Whatever a program does, under any nesting of scopes and
in the states of any chains, and whether it ends with a result, with a fault or not at all:

* what it does with the settings keeps the law of scopes, leads to the settings that it leaves,
  and agrees with any contexts, of which it touches the present one alone; so the last
  replacement outside of all scopes decides;
* in any number of scopes a program begins with the settings of the innermost one, what comes
  of it passes through, and outside of them the settings are the same as before;
* a scope with given settings keeps those in force aside and sets them again;
* when settings cannot be read, neither they nor anything else changes. -/
theorem settings_keep_scopes (machine : Machine F M) (fuel : Nat) :
    (∀ {α : Type} (p : Program F M α) (w : World F M),
      let after := (machine.exec fuel p w).2.settings
      Turn.Leads w.settings (machine.account fuel p w) after ∧
      (∀ c : Contexts F, c.value = w.settings → ∃ d,
        Turn.Plays c (machine.account fuel p w) d ∧ d.value = after ∧ c.Spares d) ∧
      after = ((machine.account fuel p w).filterMap Turn.replacement?).getLast?.getD w.settings) ∧
    (∀ {α : Type} (scope : Scope F) (scopes : List (Scope F)) (p : Program F M α)
      (w : World F M), machine.exec fuel (p.nested (scope :: scopes)) w =
        let left := machine.exec fuel p
          { w with settings := (scope :: scopes).foldl Scope.entry w.settings }
        (left.1, { left.2 with settings := w.settings })) ∧
    (∀ {α : Type} (s : Settings F) (p : Program F M α) (w : World F M),
      (machine.exec fuel p { w with settings := s }).1.isSome →
        machine.exec fuel (p.guarded s) w = machine.exec fuel (.within (.given s) p) w) ∧
    ∀ {α : Type} (source : Value F) (e : Fault) (p : Program F M α) (w : World F M),
      Settings.read source = .error e →
        machine.exec fuel (Program.ofExcept (Settings.read source) >>= .configure) w
          = (some (.error e), w) ∧
        machine.exec fuel (Program.ofExcept (Settings.read source) >>=
          fun s => .within (.given s) p) w = (some (.error e), w) := by
  refine ⟨?_, ?_, ?_, ?_⟩
  · intro α p w
    have hleads := machine.exec_obeys fuel p w
    refine ⟨hleads, ?_, hleads.eq_getLast⟩
    intro c hc
    obtain ⟨d, hplays, hd⟩ := hleads.plays hc
    exact ⟨d, hplays, hd, hplays.spares⟩
  · exact fun scope scopes p w => Program.exec_nested _ _ scope scopes p w
  · exact fun s p w => Program.exec_guarded _ _ s p w
  · intro α source e p w hread
    rw [hread]
    exact ⟨rfl, rfl⟩

/-- A fault passes through three scopes, inside of which the settings were replaced; then a
chain runs whose state replaces them for good, and for a part of its own. -/
theorem settings_keep_scopes_unwound :
    let loud : Settings Ini.StateId := { traceStates := .bool true }
    let quiet : Settings Ini.StateId := { warnOnDropped := .none }
    let machine : Machine Ini.StateId Unit := fun _ h => do
      Program.tell h .advance
      Program.configure quiet
      Program.within .copied (Program.configure loud)
      return .none
    let failing : Program Ini.StateId Unit (Settings Ini.StateId) := do
      Program.configure quiet
      Program.fail (.raised .value "boom")
    let scopes : List (Scope Ini.StateId) := [.copied, .fresh]
    let p : Program Ini.StateId Unit (Settings Ini.StateId) := do
      let _ ← Program.attempt (failing.nested (.given quiet :: scopes))
      let before ← Program.settings
      let _ ← Program.run 0 (.callable .line)
      return before
    let source : Value Ini.StateId := .int 3
    let w : World Ini.StateId Unit := { settings := loud, memory := () }
    let v := (w.create "a".toList).2
    (machine.exec 9 p v).1 = some (.ok loud) ∧ (machine.exec 9 p v).2.settings = quiet ∧
      machine.exec 9 (failing.nested (.given quiet :: scopes)) v
        = (some (.error (.raised .value "boom")), v) ∧
      machine.exec 9 (p.guarded quiet) v = machine.exec 9 (.within (.given quiet) p) v ∧
      Settings.read source = .error (.notAMapping "int") ∧
      machine.exec 9 (Program.ofExcept (Settings.read source) >>= .configure) v
        = (some (.error (.notAMapping "int")), v) := by
  intro loud quiet machine failing scopes p source w v
  obtain ⟨hlaw, hnested, hguarded, hread⟩ := settings_keep_scopes machine 9
  exact ⟨rfl, (hlaw p v).2.2, hnested (.given quiet) scopes failing v, hguarded quiet p v rfl, rfl,
    (hread source _ p v rfl).1⟩

end LexChain
