import LexChain.Ini.States
import LexChain.Proofs.Calls
import LexChain.Proofs.Growth

/-!
# `LexChain.Proofs.Failure`: how a run fails

A run checks the value that it starts from, before anything else, and the value that each call
hands back, before it looks whether there is text left. So it fails in three ways: the first
value is no state, a call hands back something that is no state, or a call fails itself.
`Chain.FailedAt` says what becomes of a run that fails at a call: the call is the last one, the
world stays as it left it, and the run reports its transitions up to that call and nothing more.

`run_fails_as_left` puts these together, and says when a run fails on its own account, that is,
although none of its calls failed: exactly when a value that it checked is refused.
-/

set_option autoImplicit false

namespace LexChain

variable {F M : Type}

namespace Chain

variable [Callable F]

/-- A run that began in a world, made these calls and failed at one of them. -/
structure FailedAt (settings : Settings F) (h : Handle) (w : World F M) (calls : List (Call F M))
    (c : Call F M) (e : Fault)
    (outcome : Option (Except Fault (List (Token F))) × World F M) : Prop where
  /-- No state is called after it. -/
  getLast?_eq : calls.getLast? = some c
  /-- The fault is that of the call, and the world is just as the call left it. -/
  outcome_eq : outcome = (some (.error e), c.left)
  /-- In front of it there are links, with the transitions that the run reported. What happened
  after these is what the call did, and no report of the run. -/
  since_eq : ∃ links : List (Link F M), calls = links.map Link.call ++ [c] ∧
    outcome.2.since w = links.flatMap (Link.events settings h) ++ c.left.since c.called
  /-- The tokens that were there before the run, or before any of the calls, are still there. -/
  tokens_kept : (w.get h).tokens <+: (outcome.2.get h).tokens ∧
    ∀ c' ∈ calls, (c'.called.get h).tokens <+: (outcome.2.get h).tokens

variable {enter : F → Handle → Execution F M (Value F)} {settings : Settings F} {h : Handle}
  {s : Option (State F)} {w : World F M} {fuel : Nat} {c : Call F M} {e : Fault}

/-- With a call that fails a link ends its chain. -/
theorem link_of_fails (hc : c = call enter h c.source c.called) (hfails : c.Fails e) :
    link enter settings h c.source c.called = (some (.error e), c.left) := by
  have houtcome : ∀ r, c.outcome = r → enter c.source.callee h c.called = (r, c.left) := by
    rintro _ rfl
    rw [hc]
    rfl
  rcases hfails with herror | ⟨v, hok, hv⟩
  · exact link_of_error (houtcome _ herror)
  · exact link_of_asState_eq_error (houtcome _ hok) hv

/-- **A chain ends at a call that fails**, with the fault of the call and in the world that it
left. -/
theorem follow_of_mem_calls (hc : c ∈ calls enter settings h fuel s w) (hfails : c.Fails e) :
    ∃ links, Trail enter settings h s w links (some c.source) c.called ∧
      calls enter settings h fuel s w = links.map Link.call ++ [c] ∧
      follow enter settings h fuel s w = (some (.error e), c.left) := by
  obtain ⟨links, n, htrail, rfl, hmore, heq⟩ := exists_trail_of_mem_calls hc
  have hlink : link enter settings h c.source c.called = _ := link_of_fails heq hfails
  refine ⟨links, htrail, ?_, ?_⟩
  · rw [htrail.calls_eq, calls_of_hasMore enter settings n c.source hmore, hlink, ← heq]
  · rw [htrail.follow_eq, follow_of_hasMore enter settings n c.source hmore,
      Execution.bind_of_error hlink]

/-- A chain fails only at a call. -/
theorem exists_fails_of_follow (hfollow : (follow enter settings h fuel s w).1 = some (.error e)) :
    ∃ c ∈ calls enter settings h fuel s w, c.Fails e := by
  have hstop : ∀ u : World F M, (stop settings h u).1 ≠ some (.error e) := by
    intro u hstopped
    cases hstopped
  induction fuel generalizing s w with
  | zero =>
      cases s with
      | none => exact absurd hfollow (hstop w)
      | some s => cases hmore : (w.get h).hasMore <;> simp [follow, proceed, hmore, stop] at hfollow
  | succ fuel ih =>
      cases s with
      | none => exact absurd hfollow (hstop w)
      | some s =>
          cases hmore : (w.get h).hasMore with
          | false =>
              rw [follow_of_not_hasMore enter settings _ s hmore] at hfollow
              exact absurd hfollow (hstop w)
          | true =>
              rw [follow_of_hasMore enter settings fuel s hmore] at hfollow
              rw [calls_of_hasMore enter settings fuel s hmore]
              -- The first call fails, or the chain goes on from the state that it handed over to.
              rcases hcall : enter s.callee h w with ⟨_ | e' | result, left⟩
              · rw [Execution.bind_of_none (link_of_none hcall)] at hfollow
                cases hfollow
              · rw [Execution.bind_of_error (link_of_error hcall)] at hfollow
                refine ⟨_, List.mem_cons_self, .inl ?_⟩
                simpa [call, hcall] using hfollow
              · cases hresult : result.asState s.name with
                | error e' =>
                    have hlink : link enter settings h s w = _ :=
                      link_of_asState_eq_error hcall hresult
                    rw [Execution.bind_of_error hlink] at hfollow
                    obtain rfl : e' = e := by simpa using hfollow
                    exact ⟨_, List.mem_cons_self, .inr ⟨result, by simp [call, hcall], hresult⟩⟩
                | ok target =>
                    have hlink : link enter settings h s w = _ :=
                      link_of_asState_eq_ok hcall hresult
                    rw [Execution.bind_of_ok hlink] at hfollow
                    rw [hlink]
                    obtain ⟨c, hc, hfails⟩ := ih hfollow
                    exact ⟨c, List.mem_cons_of_mem _ hc, hfails⟩

/-- A chain calls a state only with a character left to begin with. -/
theorem hasMore_of_mem_calls (hc : c ∈ calls enter settings h fuel s w) :
    (w.get h).hasMore = true := by
  cases hmore : (w.get h).hasMore with
  | true => rfl
  | false =>
      cases s with
      | none => cases fuel <;> simp [calls] at hc
      | some s => simp [calls_of_not_hasMore enter settings fuel s hmore] at hc

/-- What a tokenizer had emitted when a state was called stays. -/
theorem tokens_of_mem_calls (henter : ∀ f h, (enter f h).Steps)
    (hc : c ∈ calls enter settings h fuel s w) :
    (c.called.get h).tokens <+: ((follow enter settings h fuel s w).2.get h).tokens := by
  obtain ⟨links, n, htrail, rfl, hmore, _⟩ := exists_trail_of_mem_calls hc
  rw [htrail.follow_eq]
  have hreaches := steps_follow henter settings h (n + 1) (some c.source) c.called
  exact (hreaches.precedes (World.lt_next_of_hasMore hmore)).tokens_grow

/-- **A chain fails at the call that fails**, and leaves what had come of it up to there. -/
theorem failedAt_of_mem_calls (henter : ∀ f h, (enter f h).Steps)
    (hc : c ∈ calls enter settings h fuel s w) (hfails : c.Fails e) :
    FailedAt settings h w (calls enter settings h fuel s w) c e
      (follow enter settings h fuel s w) := by
  have hreaches := steps_follow henter settings h fuel s w
  have hnext := World.lt_next_of_hasMore (hasMore_of_mem_calls hc)
  obtain ⟨links, htrail, hcalls, hfollow⟩ := follow_of_mem_calls hc hfails
  refine ⟨?_, hfollow, ⟨links, hcalls, ?_⟩, (hreaches.precedes hnext).tokens_grow,
    fun c' hc' => tokens_of_mem_calls henter hc'⟩
  · simp [hcalls]
  · -- What was reported since the beginning: the links up to the call, and then the call itself,
    -- after which nothing is written.
    obtain ⟨hcalled, hsince⟩ := htrail.since_eq henter
    obtain ⟨_, _, _, _, _, heq⟩ := exists_trail_of_mem_calls hc
    have hleft : c.called.Reaches c.left := by
      rw [heq]
      exact henter ..
    rw [hfollow, hcalled.since_append hleft, hsince]

end Chain

/-- **How a run fails.** Take a run from any value on, over any tokenizer.

* It fails though none of its calls failed exactly when the value that it starts from, or one that
  a call handed back, is neither a state nor a callable nor the end of a chain.
* Such a value to start from is refused before any state is called, with or without text left, and
  nothing changes.
* A call that hands back such a value ends the run, with or without text left. The refusal names
  the state and the sort of the value.
* A call that fails ends the run, which hands on the fault as it is.

In the last two cases the call is the last one and all is just as it left it. -/
theorem run_fails_as_left [Callable F] (machine : Machine F M) (fuel : Nat) (h : Handle)
    (initial : Value F) (w : World F M) :
    let calls := machine.calls fuel h initial w
    let outcome := machine.exec fuel (.run h initial) w
    (((∃ e, outcome.1 = some (.error e)) ∧ ∀ c ∈ calls, ∀ e, c.outcome ≠ some (.error e)) ↔
      ¬initial.IsNext ∨ ∃ c ∈ calls, ∃ v, c.outcome = some (.ok v) ∧ ¬v.IsNext) ∧
    (¬initial.IsNext →
      calls = [] ∧ outcome = (some (.error (.notAState "<initial>" initial.typeName)), w)) ∧
    (∀ c ∈ calls, ∀ v, c.outcome = some (.ok v) → ¬v.IsNext →
      Chain.FailedAt w.settings h w calls c (.notAState c.source.name v.typeName) outcome) ∧
    ∀ c ∈ calls, ∀ e, c.outcome = some (.error e) →
      Chain.FailedAt w.settings h w calls c e outcome := by
  intro calls outcome
  have hcalls : calls = machine.calls fuel h initial w := rfl
  have houtcome : outcome = Chain.run (machine.enter fuel) fuel h initial w := rfl
  unfold Machine.calls Chain.callsFrom at hcalls
  unfold Chain.run at houtcome
  cases hs : initial.asState Chain.initialName with
  | error e =>
      rw [hs] at hcalls houtcome
      obtain ⟨hinitial, rfl⟩ := Value.asState_eq_error_iff.mp hs
      rw [hcalls, houtcome]
      refine ⟨?_, fun _ => ⟨rfl, rfl⟩, by simp, by simp⟩
      simp [hinitial]
  | ok s =>
      rw [hs] at hcalls houtcome
      have hinitial : initial.IsNext := Value.exists_asState_eq_ok_iff.mp ⟨s, hs⟩
      have hfailed : ∀ c ∈ calls, ∀ e, c.Fails e →
          Chain.FailedAt w.settings h w calls c e outcome := by
        intro c hc e hfails
        rw [hcalls] at hc ⊢
        rw [houtcome]
        exact Chain.failedAt_of_mem_calls (machine.steps_enter fuel) hc hfails
      have hrefused : ∀ (c : Chain.Call F M) (v : Value F), c.outcome = some (.ok v) → ¬v.IsNext →
          c.Fails (.notAState c.source.name v.typeName) := by
        intro c v hok hv
        exact .inr ⟨v, hok, Value.asState_eq_error_iff.mpr ⟨hv, rfl⟩⟩
      refine ⟨⟨?_, ?_⟩, fun hnot => absurd hinitial hnot,
        fun c hc v hok hv => hfailed c hc _ (hrefused c v hok hv),
        fun c hc e herror => hfailed c hc e (.inl herror)⟩
      · rintro ⟨⟨e, herror⟩, hnone⟩
        rw [houtcome] at herror
        obtain ⟨c, hc, hfails | ⟨v, hok, hv⟩⟩ := Chain.exists_fails_of_follow herror
        · exact absurd hfails (hnone c (hcalls ▸ hc) e)
        · exact .inr ⟨c, hcalls ▸ hc, v, hok, (Value.asState_eq_error_iff.mp hv).1⟩
      · rintro (hnot | ⟨c, hc, v, hok, hv⟩)
        · exact absurd hinitial hnot
        · have hlast := hfailed c hc _ (hrefused c v hok hv)
          refine ⟨⟨_, congrArg Prod.fst hlast.outcome_eq⟩, ?_⟩
          -- A call that failed would be the last one, and this one handed back a value.
          intro c' hc' e herror
          have hlast' := (hfailed c' hc' e (.inl herror)).getLast?_eq
          rw [hlast.getLast?_eq] at hlast'
          obtain rfl := Option.some.inj hlast'
          rw [hok] at herror
          cases herror

/-- The second call consumes the last character, leaves all text pending and hands back a number.
The run fails, though there is nothing left to read, and warns of no text. A text for a first
value is refused in a world without any text. -/
theorem run_fails_as_left_pending :
    let loud : Settings Ini.StateId := { traceStates := .bool true, warnOnDropped := .bool true }
    let machine : Machine Ini.StateId Unit := fun s h => do
      Program.tell h .advance
      match s with
      | .line => return .callable .comment
      | _ => return .int 3
    let w : World Ini.StateId Unit := { settings := loud, memory := () }
    let u := (w.create "ab".toList).2
    let run := machine.exec 3 (.run 0 (.callable .line)) u
    (∃ c ∈ machine.calls 3 0 (.callable .line) u, c.outcome = some (.ok (.int 3)) ∧
        Chain.FailedAt loud 0 u (machine.calls 3 0 (.callable .line) u) c
          (.notAState "comment_state" "int") run) ∧
      (run.2.get 0).hasMore = false ∧ (run.2.get 0).pending = "ab".toList ∧
      run.2.records.map Record.message = ["line_state -> comment_state at 1"] ∧
      machine.exec 3 (.run 0 (.str "x")) w = (some (.error (.notAState "<initial>" "str")), w) := by
  intro loud machine w u run
  have hrefused : ¬(Value.int 3 : Value Ini.StateId).IsNext := id
  have hinitial : ¬(Value.str "x" : Value Ini.StateId).IsNext := id
  obtain ⟨_, _, hresult, _⟩ := run_fails_as_left machine 3 0 (.callable .line) u
  obtain ⟨_, hfirst, _⟩ := run_fails_as_left machine 3 0 (.str "x") w
  obtain ⟨c, hc, houtcome, hname⟩ : ∃ c ∈ machine.calls 3 0 (.callable .line) u,
      c.outcome = some (.ok (.int 3)) ∧ c.source.name = "comment_state" :=
    ⟨_, List.mem_cons_of_mem _ List.mem_cons_self, rfl, rfl⟩
  have hfailed := hresult c hc _ houtcome hrefused
  rw [hname] at hfailed
  exact ⟨⟨c, hc, houtcome, hfailed⟩, by decide +kernel, by decide +kernel, by decide +kernel,
    (hfirst hinitial).2⟩

end LexChain
