import LexChain.Proofs.Fuel
import LexChain.Proofs.Trail

/-!
# `LexChain.Proofs.Calls`: the calls that a run makes

`Machine.calls` lists the calls of states that a run makes itself, in order, each with the world
before it, what came of it and the world that it left. Calls that a state makes in turn, or
chains that it drives, are no part of the list.

All calls in front of the last one are links (`Chain.Calling`), and those of a trail come first
among them (`Chain.exists_trail_of_mem_calls`, `Chain.Trail.calls_eq`). The last one may be a link
too, or it fails, or hands back something that is no state, or the fuel does not last for it. A run
that ended made the calls of its trail and at most one more (`Chain.calls_of_follow`).
`Value.IsNext` says which values a chain goes on or ends with, and `Chain.Call.Fails` with which
fault a call ends its chain.
-/

set_option autoImplicit false

namespace LexChain

variable {F M : Type}

/-! ### Values that a chain accepts -/

namespace Value

/-- Whether a value says what comes next: a state, a callable, or the end of the chain. -/
def IsNext : Value F → Prop
  | none | callable _ | state _ => True
  | _ => False

/-- Every other value is refused, with the name of what handed it over and its sort. -/
theorem asState_eq_error_iff {v : Value F} {source : String} {e : Fault} :
    v.asState source = .error e ↔ ¬v.IsNext ∧ e = .notAState source v.typeName := by
  cases v <;> simp [asState, IsNext, eq_comm]

/-- A value passes the check exactly when it says what comes next. -/
theorem exists_asState_eq_ok_iff {v : Value F} {source : String} :
    (∃ s, v.asState source = .ok s) ↔ v.IsNext := by
  cases v <;> simp [asState, IsNext]

end Value

namespace Chain

/-! ### Calls -/

/-- A call that a chain makes: the state, the world in which it is called, its outcome, which is
`none` if the fuel does not last, and the world that it leaves. -/
structure Call (F M : Type) where
  source : State F
  called : World F M
  outcome : Option (Except Fault (Value F))
  left : World F M

/-- The call of a state in a world. -/
def call (enter : F → Handle → Execution F M (Value F)) (h : Handle) (s : State F)
    (w : World F M) : Call F M :=
  ⟨s, w, (enter s.callee h w).1, (enter s.callee h w).2⟩

/-- A link as a call. -/
def Link.call (l : Link F M) : Call F M := ⟨l.source, l.called, some (.ok l.result), l.left⟩

/-- The fault with which a call ends its chain: its own one, or the refusal of its value. -/
def Call.Fails [Callable F] (c : Call F M) (e : Fault) : Prop :=
  c.outcome = some (.error e) ∨
    ∃ v, c.outcome = some (.ok v) ∧ v.asState c.source.name = .error e

variable [Callable F]

/-- The calls that a chain makes from a state on. -/
def calls (enter : F → Handle → Execution F M (Value F)) (settings : Settings F) (h : Handle) :
    Nat → Option (State F) → World F M → List (Call F M)
  | fuel + 1, some s, w =>
    if (w.get h).hasMore then
      call enter h s w :: match link enter settings h s w with
        | (some (.ok target), w') => calls enter settings h fuel target w'
        | _ => []
    else []
  | _, _, _ => []

variable {enter enter' : F → Handle → Execution F M (Value F)} {settings : Settings F} {h : Handle}
  {s last : Option (State F)} {w u : World F M} {links : List (Link F M)}

/-- With a character left a state is called, and the others after it if there is a link. -/
theorem calls_of_hasMore (enter : F → Handle → Execution F M (Value F)) (settings : Settings F)
    (fuel : Nat) (s : State F) (hmore : (w.get h).hasMore = true) :
    calls enter settings h (fuel + 1) (some s) w =
      call enter h s w :: match link enter settings h s w with
        | (some (.ok target), w') => calls enter settings h fuel target w'
        | _ => [] :=
  if_pos hmore

/-- With no character left no state is called. -/
theorem calls_of_not_hasMore (enter : F → Handle → Execution F M (Value F))
    (settings : Settings F) (fuel : Nat) (s : State F) (hmore : (w.get h).hasMore = false) :
    calls enter settings h fuel (some s) w = [] := by
  cases fuel with
  | zero => rfl
  | succ fuel => exact if_neg (by simp [hmore])

/-- **The calls from a state on**, with a character left: this one alone, or a link and then those
from where it leads to. -/
theorem calls_succ_cases (enter : F → Handle → Execution F M (Value F)) (settings : Settings F)
    (fuel : Nat) (s : State F) (hmore : (w.get h).hasMore = true) :
    calls enter settings h (fuel + 1) (some s) w = [call enter h s w] ∨
      ∃ l : Link F M, l.source = s ∧ l.called = w ∧
        enter l.source.callee h l.called = (some (.ok l.result), l.left) ∧
        l.result.asState l.source.name = .ok l.target ∧
        calls enter settings h (fuel + 1) (some s) w =
          l.call :: calls enter settings h fuel l.target (l.arrived settings h) := by
  rw [calls_of_hasMore enter settings fuel s hmore]
  -- A call that is exhausted, fails or gives no state is the last one. Any other is a link, and
  -- the calls go on behind it.
  rcases hcall : enter s.callee h w with ⟨_ | e | result, left⟩
  · rw [link_of_none hcall]
    exact .inl rfl
  · rw [link_of_error hcall]
    exact .inl rfl
  · cases hresult : result.asState s.name with
    | error e =>
        rw [link_of_asState_eq_error hcall hresult]
        exact .inl rfl
    | ok target =>
        rw [link_of_asState_eq_ok hcall hresult]
        refine .inr ⟨⟨s, w, result, target, left⟩, rfl, rfl, hcall, hresult, ?_⟩
        simp only [call, hcall, Link.call, Link.arrived]

/-- The calls of a chain, one after the other: each but the last one is a link, which leads to the
next one. -/
inductive Calling (enter : F → Handle → Execution F M (Value F)) (settings : Settings F)
    (h : Handle) : Option (State F) → World F M → List (Call F M) → Prop
  | nil (s : Option (State F)) (w : World F M) : Calling enter settings h s w []
  | last {s : State F} {w : World F M} (hmore : (w.get h).hasMore = true) :
      Calling enter settings h (some s) w [call enter h s w]
  | cons {l : Link F M} {cs : List (Call F M)} (hmore : (l.called.get h).hasMore = true)
      (hcall : enter l.source.callee h l.called = (some (.ok l.result), l.left))
      (hrest : Calling enter settings h l.target (l.arrived settings h) cs) :
      Calling enter settings h (some l.source) l.called (l.call :: cs)

/-- **The calls of a chain come one after the other.** -/
theorem calling_calls (enter : F → Handle → Execution F M (Value F)) (settings : Settings F)
    (h : Handle) (fuel : Nat) (s : Option (State F)) (w : World F M) :
    Calling enter settings h s w (calls enter settings h fuel s w) := by
  induction fuel generalizing s w with
  | zero => exact .nil s w
  | succ fuel ih =>
      cases s with
      | none => exact .nil none w
      | some s =>
          cases hmore : (w.get h).hasMore with
          | false =>
              rw [calls_of_not_hasMore enter settings _ s hmore]
              exact .nil _ w
          | true =>
              -- The first call is the last one, or a link with the calls of the chain behind
              -- it.
              rcases calls_succ_cases enter settings fuel s hmore with
                hlast | ⟨l, rfl, rfl, hcall, _, hrest⟩
              · rw [hlast]
                exact .last hmore
              · rw [hrest]
                exact .cons hmore hcall (ih ..)

/-! ### Calls and trails -/

/-- The links of a trail come first among the calls. -/
theorem Trail.calls_eq (htrail : Trail enter settings h s w links last u) (n : Nat) :
    calls enter settings h (links.length + n) s w
      = links.map Link.call ++ calls enter settings h n last u := by
  induction htrail with
  | nil s w => simp
  | @cons l links last u hmore hcall hresult _ ih =>
      have hlink : link enter settings h l.source l.called = _ :=
        link_of_asState_eq_ok hcall hresult
      -- What the chain asks for and what the link records are the same call, so the trail gives
      -- the first calls.
      have hfirst : call enter h l.source l.called = l.call := by
        simp only [call, hcall, Link.call]
      rw [List.length_cons, Nat.add_right_comm, calls_of_hasMore enter settings _ _ hmore, hlink,
        hfirst]
      exact congrArg (l.call :: ·) ih

/-- The chain goes on from where the trail leads. -/
theorem Trail.follow_eq (htrail : Trail enter settings h s w links last u) (n : Nat) :
    follow enter settings h (links.length + n) s w = follow enter settings h n last u := by
  induction htrail with
  | nil s w => simp
  | @cons l links last u hmore hcall hresult _ ih =>
      have hlink : link enter settings h l.source l.called = _ :=
        link_of_asState_eq_ok hcall hresult
      rw [List.length_cons, Nat.add_right_comm, follow_of_hasMore enter settings _ _ hmore,
        Execution.bind_of_ok hlink]
      exact ih

/-- With fewer calls at hand than the trail has links the chain does not end. -/
theorem Trail.follow_of_lt (htrail : Trail enter settings h s w links last u) {n : Nat}
    (hn : n < links.length) : (follow enter settings h n s w).1 = none := by
  induction htrail generalizing n with
  | nil => simp at hn
  | @cons l links last u hmore hcall hresult _ ih =>
      cases n with
      -- There is a link to go and no fuel for it.
      | zero => simp [follow, proceed, hmore]
      | succ n =>
          have hlink : link enter settings h l.source l.called = _ :=
            link_of_asState_eq_ok hcall hresult
          rw [follow_of_hasMore enter settings _ _ hmore, Execution.bind_of_ok hlink]
          exact ih (Nat.lt_of_succ_lt_succ hn)

/-- The call that a chain makes where a trail has led it, if it does not stop there. -/
def lastCall (enter : F → Handle → Execution F M (Value F)) (h : Handle) :
    Option (State F) → World F M → List (Call F M)
  | some s, u => if (u.get h).hasMore then [call enter h s u] else []
  | none, _ => []

/-- **A chain that ended made these calls and no others:** those of its trail, and the one that it
ended with, if that was no link. -/
theorem calls_of_follow {fuel : Nat} {r : Except Fault (List (Token F))} {v : World F M}
    (hrun : follow enter settings h fuel s w = (some r, v)) :
    ∃ links last u, Trail enter settings h s w links last u ∧
      Ending enter settings h last u (some r, v) ∧
      calls enter settings h fuel s w = links.map Link.call ++ lastCall enter h last u := by
  obtain ⟨links, last, u, htrail, hending⟩ := follow_path enter settings h fuel s w
  rw [hrun] at hending
  -- The fuel lasted for the trail, as the chain ended.
  obtain ⟨n, rfl⟩ : ∃ n, fuel = links.length + n := by
    refine ⟨fuel - links.length, (Nat.add_sub_of_le (Nat.le_of_not_lt fun hlt => ?_)).symm⟩
    have hnone := htrail.follow_of_lt hlt
    rw [hrun] at hnone
    cases hnone
  refine ⟨links, last, u, htrail, hending, ?_⟩
  rw [htrail.follow_eq] at hrun
  rw [htrail.calls_eq]
  congr 1
  -- Behind the trail there is one more call, or none.
  cases last with
  | none => cases n <;> rfl
  | some t =>
      cases hmore : (u.get h).hasMore with
      | false =>
          rw [calls_of_not_hasMore enter settings _ t hmore]
          simp [lastCall, hmore]
      | true =>
          cases n with
          | zero => simp [follow, proceed, hmore] at hrun
          | succ n =>
              rw [calls_of_hasMore enter settings n t hmore]
              simp only [lastCall, hmore, if_true, List.cons.injEq, true_and]
              generalize houtcome : (some r, v) = outcome at hending
              cases hending with
              | stopped hstops => simp [hmore] at hstops
              | failed _ hcall => rw [link_of_error hcall]
              | refused _ hcall hresult => rw [link_of_asState_eq_error hcall hresult]
              | _ => cases houtcome

/-- Behind a trail there may be another one. -/
theorem Trail.append (htrail : Trail enter settings h s w links last u)
    {links' : List (Link F M)} {last' : Option (State F)} {u' : World F M}
    (hrest : Trail enter settings h last u links' last' u') :
    Trail enter settings h s w (links ++ links') last' u' := by
  induction htrail with
  | nil => exact hrest
  | cons hmore hcall hresult _ ih => exact .cons hmore hcall hresult (ih hrest)

/-- A trail is one with more fuel for its calls as well. -/
theorem Trail.extends (henter : ∀ f h, (enter f h).Extends (enter' f h))
    (htrail : Trail enter settings h s w links last u) :
    Trail enter' settings h s w links last u := by
  induction htrail with
  | nil s w => exact .nil s w
  | cons hmore hcall hresult _ ih =>
      exact .cons hmore ((henter _ h _ (by simp [hcall])).trans hcall) hresult ih

/-- **Every call is made behind a trail**, with a character left. -/
theorem exists_trail_of_mem_calls {fuel : Nat} {c : Call F M}
    (hc : c ∈ calls enter settings h fuel s w) :
    ∃ links n, Trail enter settings h s w links (some c.source) c.called ∧
      fuel = links.length + (n + 1) ∧ (c.called.get h).hasMore = true ∧
      c = call enter h c.source c.called := by
  induction fuel generalizing s w with
  | zero => simp [calls] at hc
  | succ fuel ih =>
      cases s with
      | none => simp [calls] at hc
      | some s =>
          cases hmore : (w.get h).hasMore with
          | false => simp [calls_of_not_hasMore enter settings _ s hmore] at hc
          | true =>
              rcases calls_succ_cases enter settings fuel s hmore with
                hlast | ⟨l, rfl, rfl, hcall, hresult, hrest⟩
              · -- The first call fails, so it is the one looked for and no link precedes it.
                rw [hlast, List.mem_singleton] at hc
                subst hc
                exact ⟨[], fuel, .nil _ w, by simp, hmore, rfl⟩
              · rw [hrest] at hc
                -- It is the first call again, or one behind the first link.
                rcases List.mem_cons.mp hc with rfl | hc
                · refine ⟨[], fuel, .nil _ _, by simp, hmore, ?_⟩
                  simp only [Link.call, call, hcall]
                · obtain ⟨links, n, htrail, hfuel, hmore', heq⟩ := ih hc
                  refine ⟨l :: links, n, .cons hmore hcall hresult htrail, ?_, hmore', heq⟩
                  rw [hfuel, List.length_cons]
                  omega

/-- The calls that a chain makes from a value on. A value that is no state leads to none. -/
def callsFrom (enter : F → Handle → Execution F M (Value F)) (fuel : Nat) (h : Handle)
    (initial : Value F) (w : World F M) : List (Call F M) :=
  match initial.asState initialName with
  | .error _ => []
  | .ok s => calls enter w.settings h fuel s w

end Chain

/-- The calls that a run makes from a value on. -/
def Machine.calls [Callable F] (machine : Machine F M) (fuel : Nat) :
    Handle → Value F → World F M → List (Chain.Call F M) :=
  Chain.callsFrom (machine.enter fuel) fuel

end LexChain
