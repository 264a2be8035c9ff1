import LexChain.Ini.States
import LexChain.Proofs.Calls
import LexChain.Proofs.Sequel
import LexChain.Proofs.TransitionTrace
import LexChain.Value.Resolve

/-!
# `LexChain.Proofs.Wrapping`: wrappings are transparent

A chain goes on with what a value comes down to, and how often this is wrapped makes no
difference to what happens. `Value.Rewrapped` relates values that differ in this only, and
`Likeness.rewrapped` is the likeness behind it: states are alike when they come down to the same
callable, faults when they differ in the name of a state at most, tokenizers and answers when they
are equal.

What shows of a wrapping is a name, and only from the second one on (`Value.stateName?_wrapTimes`).
`Chain.Named` says where a run uses these names: in its reports of transitions, and in a fault on
its own account. Equality tells wrappings apart (`Value.same_wrapTimes`).
`wrapping_is_transparent` puts all of this together.
-/

set_option autoImplicit false

namespace LexChain

variable {F M : Type}

/-! ### Wrapped callables -/

namespace State

/-- Wrapping a state again leaves the callable inside. -/
theorem callee_iterate_wrap (k : Nat) (s : State F) : (wrap^[k] s).callee = s.callee := by
  induction k with
  | zero => rfl
  | succ k ih =>
      rw [Function.iterate_succ_apply']
      exact ih

/-- Wrapping a state again adds a layer each time. -/
theorem layers_iterate_wrap (k : Nat) (s : State F) : (wrap^[k] s).layers = s.layers + k := by
  induction k with
  | zero => rfl
  | succ k ih =>
      rw [Function.iterate_succ_apply']
      exact congrArg Nat.succ ih

/-- A state is its callable, wrapped once and then as often as there are further layers. -/
theorem iterate_wrap_of (s : State F) : wrap^[s.layers] (of s.callee) = s := by
  rw [eq_iff, layers_iterate_wrap, callee_iterate_wrap]
  exact ⟨Nat.zero_add _, rfl⟩

end State

namespace Value

/-- A state with further wrappings is a state. -/
theorem wrapTimes_state (k : Nat) (s : State F) :
    wrapTimes k (state s) = state (State.wrap^[k] s) := by
  induction k generalizing s with
  | zero => rfl
  | succ k ih => exact ih s.wrap

/-- A callable that is wrapped is a state, with a layer for every wrapping beyond the first. -/
theorem wrapTimes_succ_callable (k : Nat) (f : F) :
    wrapTimes (k + 1) (callable f) = state (State.wrap^[k] (.of f)) :=
  wrapTimes_state k (.of f)

/-- Every wrapping of a callable stands for a state of it. -/
theorem asState_wrapTimes (k : Nat) (f : F) (source : String) :
    (wrapTimes k (callable f)).asState source = .ok (some (State.wrap^[k - 1] (.of f))) := by
  cases k with
  | zero => rfl
  | succ k =>
      rw [wrapTimes_succ_callable]
      rfl

/-- Equal values, or the same callable with any wrappings on both sides. -/
inductive Rewrapped : Value F → Value F → Prop
  | refl (v : Value F) : Rewrapped v v
  | wrapTimes (f : F) (j k : Nat) :
      Rewrapped (Value.wrapTimes j (callable f)) (Value.wrapTimes k (callable f))

/-- To wrap a value again gives the same up to wrappings. -/
theorem rewrapped_wrapTimes (v : Value F) (k : Nat) : v.Rewrapped (v.wrapTimes k) := by
  cases v with
  | callable f => exact .wrapTimes f 0 k
  | state s =>
      -- A state is its callable wrapped once more than it has layers, so wrapping it is
      -- wrapping the callable more often.
      have hs : Value.wrapTimes (s.layers + 1) (callable s.callee) = state s := by
        rw [wrapTimes_succ_callable, s.iterate_wrap_of]
      have hk : Value.wrapTimes (k + s.layers + 1) (callable s.callee)
          = (state s).wrapTimes k := by
        rw [wrapTimes_succ_callable, wrapTimes_state, Function.iterate_add_apply,
          s.iterate_wrap_of]
      rw [← hk]
      exact hs ▸ .wrapTimes ..
  | _ => cases k <;> exact .refl _

/-- The state that a value stands for goes on as such. -/
theorem state?_of_asState {v : Value F} {source : String} {s : Option (State F)}
    (hs : v.asState source = .ok s) : v.state? = s := by
  cases v <;> simp_all [asState, state?]

/-- A wrapped callable stands for the callable with one layer less. -/
theorem state?_wrapTimes (k : Nat) (f : F) :
    (wrapTimes k (callable f)).state? = some (State.wrap^[k - 1] (.of f)) :=
  state?_of_asState (asState_wrapTimes k f "")

/-- **A wrapped callable is called through all of its wrappings.** -/
theorem call_of_state?_wrapTimes {α : Type} {k : Nat} {f : F} {s : State F}
    (hs : (wrapTimes k (callable f)).state? = some s) (enter : F → α) : s.call enter = enter f := by
  rw [state?_wrapTimes] at hs
  rw [State.call_eq, ← Option.some.inj hs, State.callee_iterate_wrap]
  rfl

/-- The name of the state that a value stands for, if it stands for one. -/
def stateName? [Callable F] (v : Value F) : Option String := v.state?.map State.name

/-- **A wrapped callable goes by its own name**, enclosed once for every wrapping beyond the
first. -/
theorem stateName?_wrapTimes [Callable F] (k : Nat) (f : F) :
    (wrapTimes k (callable f)).stateName?
      = some (State.encloseTimes (k - 1) (Callable.name f)) := by
  rw [stateName?, state?_wrapTimes, Option.map_some, State.name_eq, State.layers_iterate_wrap,
    State.callee_iterate_wrap]
  simp only [State.layers, State.callee, Nat.zero_add]

section Equality

variable [BEq F]

/-- **Wrapped callables are equal** when they are wrapped equally often and the callables are. -/
theorem same_wrapTimes (j k : Nat) (f g : F) :
    (wrapTimes j (callable f)).same (wrapTimes k (callable g)) = true
      ↔ j = k ∧ (f == g) = true := by
  -- A bare callable and a state are never equal. Of two states the layers and the callables in
  -- the middle are compared.
  cases j with
  | zero =>
      cases k with
      | zero =>
          show (f == g) = true ↔ _
          simp
      | succ k =>
          rw [wrapTimes_succ_callable]
          show false = true ↔ _
          simp
  | succ j =>
      rw [wrapTimes_succ_callable]
      cases k with
      | zero =>
          show false = true ↔ _
          simp
      | succ k =>
          simp [wrapTimes_succ_callable, same, State.same_iff, State.layers_iterate_wrap,
            State.callee_iterate_wrap, State.layers, State.callee]

/-- Then they have one hash, which goes through the wrappings. -/
theorem hash_wrapTimes_of_same {H : Type} (rule : Hashing F H) {j k : Nat} {f g : F}
    (hsame : (wrapTimes j (callable f)).same (wrapTimes k (callable g)) = true) :
    (wrapTimes j (callable f)).hash rule = (wrapTimes k (callable g)).hash rule := by
  obtain ⟨rfl, hfg⟩ := (same_wrapTimes j k f g).mp hsame
  cases j with
  | zero => exact congrArg Except.ok (rule.callable_eq hfg)
  | succ j =>
      rw [wrapTimes_succ_callable, wrapTimes_succ_callable] at hsame ⊢
      rw [same] at hsame
      rw [hash, hash, State.hash_eq_of_same rule hsame]

end Equality

end Value

/-- Faults that differ in the name of a state at most. -/
inductive Fault.Renamed : Fault → Fault → Prop
  | refl (e : Fault) : Renamed e e
  | notAState (source source' typeName : String) :
      Renamed (.notAState source typeName) (.notAState source' typeName)

/-! ### What is alike up to wrappings -/

namespace Likeness

/-- A likeness under which tokenizers are alike, and lists and callables, only when they are
equal. -/
structure Exact (L : Likeness F) : Prop where
  tokenizers_iff : ∀ {h : Handle} {t u : Tokenizer F}, L.tokenizers h t u ↔ t = u
  answers_refl : ∀ (h : Handle) (q : Query) (a : q.Answer F), L.answers h q a a
  lists_iff : ∀ {ts us : List (Token F)}, L.lists ts us ↔ ts = us
  callables_iff : ∀ {f g : F}, L.callables f g ↔ f = g
  faults_refl : ∀ e, L.faults e e

namespace Exact

variable {L L' : Likeness F} {w v w' v' : World F M}

/-- If all else has to be equal, events that are no reports are alike only if they are equal. -/
theorem events_iff (hL : L.Exact) {e e' : Event F} (he : e.record? = none) :
    L.Events e e' ↔ e = e' := by
  -- Both ways by the kind of the event. A report is excluded, as it may carry another name.
  constructor
  · intro hevents
    cases hevents with
    | created ht => rw [hL.tokenizers_iff.mp ht]
    | entered hf ht => rw [hL.callables_iff.mp hf, hL.tokenizers_iff.mp ht]
    | asked ht _ => rw [hL.tokenizers_iff.mp ht]
    | told ht _ _ => rw [hL.tokenizers_iff.mp ht]
  · rintro rfl
    have htokenizers : ∀ h t, L.tokenizers h t t := fun h t => hL.tokenizers_iff.mpr rfl
    cases e with
    | created h t => exact .created (htokenizers h t)
    | entered f h t => exact .entered (hL.callables_iff.mpr rfl) (htokenizers h t)
    | asked h q t => exact .asked (htokenizers h t) (.refl hL.faults_refl (hL.answers_refl h q) _)
    | told h c t =>
        exact .told (htokenizers h t) (.refl hL.faults_refl (fun _ => rfl) _) (htokenizers h _)
    | reported h record => cases he

/-- Deeds are alike one by one when they are the same. -/
theorem forall₂_events_iff (hL : L.Exact) {es es' : List (Event F)} :
    List.Forall₂ L.Events (deeds es) (deeds es') ↔ deeds es = deeds es' := by
  -- Reports, which may carry different names, are no deeds.
  have hnone : ∀ e ∈ deeds es, e.record? = none := by
    intro e he
    simpa using (List.mem_filter.mp he).2
  generalize deeds es = ds at hnone
  generalize deeds es' = ds'
  induction ds generalizing ds' with
  | nil => simp [eq_comm]
  | cons e ds ih =>
      cases ds' with
      | nil => simp
      | cons e' ds' =>
          have hrest : List.Forall₂ L.Events ds ds' ↔ ds = ds' :=
            ih (fun e he => hnone e (List.mem_cons_of_mem _ he)) ds'
          rw [List.forall₂_cons, hL.events_iff (hnone e List.mem_cons_self), hrest,
            List.cons.injEq]

/-- Two such likenesses have the same worlds alike. -/
theorem worlds (hL : L.Exact) (hL' : L'.Exact) (hwv : L.Worlds w v) : L'.Worlds w v :=
  { hwv with
    get := fun h => hL'.tokenizers_iff.mpr (hL.tokenizers_iff.mp (hwv.get h))
    refl_of_le := fun _ _ _ => hL'.tokenizers_iff.mpr rfl
    held := fun k => hL'.lists_iff.mpr (hL.lists_iff.mp (hwv.held k)) }

/-- Two such likenesses have the same ways to go on. -/
theorem alongside (hL : L.Exact) (hL' : L'.Exact) (halong : L.Alongside w v w' v') :
    L'.Alongside w v w' v' := by
  obtain ⟨es, es', hes, hes', hevents⟩ := halong
  exact ⟨es, es', hes, hes', hL'.forall₂_events_iff.mpr (hL.forall₂_events_iff.mp hevents)⟩

/-- Worlds that go on alike from one and the same have the same deeds. -/
theorem deeds_eq (hL : L.Exact) (halong : L.Alongside w w w' v') :
    deeds v'.history = deeds w'.history := by
  obtain ⟨es, es', hes, hes', hevents⟩ := halong
  rw [hes, hes', deeds_append, deeds_append, hL.forall₂_events_iff.mp hevents]

end Exact

/-- Values, and the states that they stand for, are alike up to wrappings, and faults up to the
name of a state. -/
def rewrapped (F : Type) : Likeness F where
  tokenizers _ := Eq
  answers _ _ := Eq
  lists := Eq
  callables := Eq
  states s s' := s.callee = s'.callee
  values := Value.Rewrapped
  faults := Fault.Renamed

/-- Where values may be wrapped otherwise, all the rest has to be equal. -/
theorem rewrapped_exact : (rewrapped F).Exact where
  tokenizers_iff := Iff.rfl
  answers_refl _ _ _ := rfl
  lists_iff := Iff.rfl
  callables_iff := Iff.rfl
  faults_refl := Fault.Renamed.refl

/-- Values that are the same up to wrappings are checked alike, whatever the names are of what
handed them over. -/
theorem rewrapped_asState {v v' : Value F} (hv : v.Rewrapped v') (source source' : String) :
    Results Fault.Renamed (Option.Rel (rewrapped F).states) (v.asState source)
      (v'.asState source') := by
  -- Only the name in the fault depends on who asked, and what the state calls is the same under
  -- all layers.
  cases hv with
  | refl =>
      cases v with
      | none => exact .ok .none
      | callable f => exact .ok (.some rfl)
      | state s => exact .ok (.some rfl)
      | _ => exact .error (Fault.Renamed.notAState ..)
  | wrapTimes f j k =>
      rw [Value.asState_wrapTimes, Value.asState_wrapTimes]
      refine .ok (.some ?_)
      show (State.wrap^[j - 1] (.of f)).callee = (State.wrap^[k - 1] (.of f)).callee
      rw [State.callee_iterate_wrap, State.callee_iterate_wrap]

variable [Callable F]

/-- Nothing that a tokenizer does depends on a wrapping. -/
theorem rewrapped_lawful : (rewrapped F).Lawful where
  hasMore_eq := by
    rintro h t _ rfl
    rfl
  answer := by
    rintro h t _ q rfl
    exact .refl Fault.Renamed.refl (fun _ => rfl) _
  lists_nil := rfl
  lists := id
  callables_refl _ := rfl
  callee_eq := id
  asState hv _ := rewrapped_asState hv ..
  asState_initial hv := rewrapped_asState hv ..

/-- What a call does and hands back does not depend on what was reported before it. -/
theorem rewrapped_simulates_enter (machine : Machine F M) (fuel : Nat) (f : F) (h : Handle) :
    (rewrapped F).Simulates Eq (machine.enter fuel f h) (machine.enter fuel f h) := by
  -- Entering names no state, so that here the worlds may be compared strictly.
  have hstrict : (counterparts (fun _ : F => False) id).Exact :=
    { tokenizers_iff := Iff.rfl
      answers_refl := fun _ _ _ => rfl
      lists_iff := Iff.rfl
      callables_iff := by simp [counterparts, strict, eq_comm]
      faults_refl := fun _ => rfl }
  refine simulates_iff.mpr fun w v hwv => ?_
  obtain ⟨houtcome, hworld, halong⟩ := simulates_iff.mp
    (simulates_enter_self (fun _ => False) id machine fuel f h) (rewrapped_exact.worlds hstrict hwv)
  rw [Results.outcome_eq (fun _ _ => id) houtcome]
  exact ⟨Results.outcome_refl Fault.Renamed.refl _, hstrict.worlds rewrapped_exact hworld,
    hstrict.alongside rewrapped_exact halong⟩

section Chains

variable {L : Likeness F} (hL : L.Lawful) {enter enter' : F → Handle → Execution F M (Value F)}
  (henter : ∀ f h, L.Simulates L.values (enter f h) (enter' f h)) {w v : World F M}
include hL henter

open Chain

/-- Like states are called alike. -/
theorem simulates_call (h : Handle) (s s' : State F) (hs : L.states s s') :
    L.Simulates L.values (s.call enter h) (s'.call enter' h) := by
  rw [State.call_eq, State.call_eq, hL.callee_eq hs]
  exact henter s'.callee h

/-- Chains that go alike call like states, in like worlds. By induction on the fuel: after a call
both chains end, or both go on from like states. -/
theorem forall₂_calls (settings settings' : Settings F) (h : Handle) (fuel : Nat)
    {s s' : Option (State F)} (hs : Option.Rel L.states s s') (hwv : L.Worlds w v) :
    List.Forall₂ (fun c c' => L.states c.source c'.source ∧ L.Worlds c.called c'.called)
      (calls enter settings h fuel s w) (calls enter' settings' h fuel s' v) := by
  induction fuel generalizing s s' w v with
  | zero => cases hs <;> exact .nil
  | succ fuel ih =>
      cases hs with
      | none => exact .nil
      | @some s s' hs =>
          have hmore' := hL.hasMore_eq (hwv.get h)
          cases hmore : (w.get h).hasMore with
          | false =>
              rw [calls_of_not_hasMore enter settings _ s hmore,
                calls_of_not_hasMore enter' settings' _ s' (hmore' ▸ hmore)]
              exact .nil
          | true =>
              rw [calls_of_hasMore enter settings fuel s hmore,
                calls_of_hasMore enter' settings' fuel s' (hmore' ▸ hmore)]
              refine .cons ⟨hs, hwv⟩ ?_
              -- Both links leave like worlds and like targets, or neither goes on.
              have hlinks : L.Simulates (Option.Rel L.states) (link enter settings h s)
                  (link enter' settings' h s') :=
                (hL.chains h).related_link trivial (simulates_call hL henter h) hs
              obtain ⟨houtcome, hworld, -⟩ := simulates_iff.mp hlinks hwv
              rcases hlink : link enter settings h s w with ⟨r, w'⟩
              rcases hlink' : link enter' settings' h s' v with ⟨r', v'⟩
              rw [hlink, hlink'] at houtcome hworld
              cases houtcome with
              | none => exact .nil
              | some hr =>
                  cases hr with
                  | error _ => exact .nil
                  | ok htarget => exact ih htarget hworld

/-- Runs from like values on call like states, in like worlds. -/
theorem forall₂_callsFrom (fuel : Nat) (h : Handle) {u u' : Value F} (hu : L.values u u')
    (hwv : L.Worlds w v) :
    List.Forall₂ (fun c c' => L.states c.source c'.source ∧ L.Worlds c.called c'.called)
      (callsFrom enter fuel h u w) (callsFrom enter' fuel h u' v) := by
  have hstate := hL.asState_initial hu
  unfold callsFrom
  generalize u.asState initialName = r at hstate
  generalize u'.asState initialName = r' at hstate
  cases hstate with
  | error he => exact .nil
  | ok hs => exact forall₂_calls hL henter w.settings v.settings h fuel hs hwv

end Chains

end Likeness

/-! ### Runs that agree up to wrappings -/

namespace Chain

/-- Two runs from the same world, with their calls and what came of them, agree but for names. -/
structure Agree (calls calls' : List (Call F M))
    (run run' : Option (Except Fault (List (Token F))) × World F M) : Prop where
  /-- The same callables are called one after the other, with tokenizers that stand alike. -/
  calls : List.Forall₂
    (fun c c' => c'.source.callee = c.source.callee ∧ ∀ k, c'.called.get k = c.called.get k)
    calls calls'
  /-- Both end with the same tokens, with faults that differ in the name of a state at most, or
  not at all. -/
  outcome : Option.Rel (Results Fault.Renamed Eq) run.1 run'.1
  get_eq : ∀ k, run'.2.get k = run.2.get k
  held_eq : ∀ k, run'.2.held k = run.2.held k
  settings_eq : run'.2.settings = run.2.settings
  memory_eq : run'.2.memory = run.2.memory
  /-- Within the calls, too, all that happened is the same, but for what was reported. -/
  deeds_eq : deeds run'.2.history = deeds run.2.history

variable [Callable F]

/-- If calls go alike up to wrappings, runs from values that are the same up to wrappings agree. -/
theorem agree_of_simulates {enter enter' : F → Handle → Execution F M (Value F)}
    (henter : ∀ f h, (Likeness.rewrapped F).Simulates Value.Rewrapped (enter f h) (enter' f h))
    (fuel : Nat) (h : Handle) {v v' : Value F} (hv : v.Rewrapped v') (w : World F M) :
    Agree (callsFrom enter fuel h v w) (callsFrom enter' fuel h v' w)
      (run enter fuel h v w) (run enter' fuel h v' w) := by
  have hlawful := Likeness.rewrapped_lawful (F := F)
  have hself : (Likeness.rewrapped F).Worlds w w := .self (fun _ _ => rfl) (fun _ => rfl) w
  have hruns : (Likeness.rewrapped F).Simulates Eq (run enter fuel h v) (run enter' fuel h v') :=
    (hlawful.chains h).run (Likeness.simulates_call hlawful henter h) .same hv
  obtain ⟨houtcome, hworld, halong⟩ := Likeness.simulates_iff.mp hruns hself
  have hcalls := Likeness.forall₂_callsFrom hlawful henter fuel h hv hself
  exact {
    calls := hcalls.imp fun c c' ⟨hsource, hcalled⟩ => ⟨hsource.symm, fun k => (hcalled.get k).symm⟩
    outcome := houtcome
    get_eq := fun k => (hworld.get k).symm
    held_eq := fun k => (hworld.held k).symm
    settings_eq := hworld.settings_eq
    memory_eq := hworld.memory_eq
    deeds_eq := Likeness.rewrapped_exact.deeds_eq halong }

/-- Calls with other values in the place of those that are handed back. A value is replaced
depending on the callable, on the tokenizer and on the world that the call left. -/
def replaced (rewrap : F → Handle → World F M → Value F → Value F)
    (enter : F → Handle → Execution F M (Value F)) : F → Handle → Execution F M (Value F) :=
  fun f h => (enter f h).bind fun v w => (some (.ok (rewrap f h w v)), w)

variable {rewrap : F → Handle → World F M → Value F → Value F}

/-- With the same up to wrappings in their place calls go alike. -/
theorem simulates_replaced (hrewrap : ∀ f h w (v : Value F), v.Rewrapped (rewrap f h w v))
    (machine : Machine F M) (fuel : Nat) (f : F) (h : Handle) :
    (Likeness.rewrapped F).Simulates Value.Rewrapped (machine.enter fuel f h)
      (replaced rewrap (machine.enter fuel) f h) := by
  rw [← Execution.bind_pure (machine.enter fuel f h)]
  refine (Likeness.rewrapped_simulates_enter machine fuel f h).bind ?_
  rintro u _ rfl
  -- What comes in its place may depend on the world, but stays the same up to wrappings.
  refine Likeness.simulates_iff.mpr fun w v hwv => ?_
  exact ⟨.some (.ok (hrewrap ..)), hwv, (Likeness.leads_self hwv).2.2⟩

omit [Callable F] in
/-- To put other values in their place is no step. -/
theorem steps_replaced {enter : F → Handle → Execution F M (Value F)}
    (henter : ∀ f h, (enter f h).Steps) (f : F) (h : Handle) :
    (replaced rewrap enter f h).Steps :=
  (henter f h).bind fun _ _ => .refl

/-- With values that stand for the very same state there is no difference at all. -/
theorem link_replaced (hrewrap : ∀ f h w v source,
      (rewrap f h w v).asState source = v.asState source)
    (enter : F → Handle → Execution F M (Value F)) (settings : Settings F) (h : Handle)
    (s : State F) : link (replaced rewrap enter) settings h s = link enter settings h s := by
  rw [link_eq, link_eq, replaced, Execution.bind_assoc]
  congr 1
  funext v w
  show receive settings h s (rewrap s.callee h w v) w = receive settings h s v w
  unfold receive
  rw [hrewrap]

/-- Chains of the same links are the same. -/
theorem follow_congr {enter enter' : F → Handle → Execution F M (Value F)}
    {settings : Settings F} {h : Handle}
    (hlink : ∀ s, link enter settings h s = link enter' settings h s) (fuel : Nat) :
    follow enter settings h fuel = follow enter' settings h fuel := by
  induction fuel with
  | zero => rfl
  | succ fuel ih =>
      funext s
      unfold follow
      simp only [hlink, ih]

/-- Runs from values that stand for the very same state are equal, if results are replaced by such
values. -/
theorem run_replaced (hrewrap : ∀ f h w v source,
      (rewrap f h w v).asState source = v.asState source)
    (enter : F → Handle → Execution F M (Value F)) (fuel : Nat) (h : Handle) {v v' : Value F}
    (hv : ∀ source, v'.asState source = v.asState source) :
    run (replaced rewrap enter) fuel h v' = run enter fuel h v := by
  funext w
  unfold run
  rw [hv, follow_congr (link_replaced hrewrap enter w.settings h) fuel]

/-! ### Names -/

/-- The names that a run uses are those of the values that it went through: the initial one and
one from each link. The run has a trail to a state, or to the end of the chain, and a world. -/
structure Named (enter : F → Handle → Execution F M (Value F)) (settings : Settings F) (h : Handle)
    (initial : Value F) (links : List (Link F M)) (last : Option (State F)) (u : World F M)
    (outcome : Option (Except Fault (List (Token F))) × World F M) : Prop where
  names_eq : links.map (fun l => some l.source.name) ++ [last.map State.name]
    = (initial :: links.map Link.result).map Value.stateName?
  /-- The report of a transition names the state that was called and the one handed back. -/
  reports_eq : ∀ l ∈ links, l.reports settings h = if settings.tracesStates then
    [.moved l.source.name l.result.stateName? (l.left.get h).position] else []
  /-- A fault is that of a call, or it names the state where the trail ends. -/
  fault : ∀ e, outcome.1 = some (.error e) → ∃ s, last = some s ∧
    ((enter s.callee h u).1 = some (.error e) ∨ ∃ result, (enter s.callee h u).1 = some (.ok result)
      ∧ ¬result.IsNext ∧ e = .notAState s.name result.typeName)

variable {enter : F → Handle → Execution F M (Value F)} {settings : Settings F} {h : Handle}
  {s last : Option (State F)} {w u : World F M} {links : List (Link F M)}

/-- Along a trail the names are those of the values handed back, one by one. -/
theorem Trail.names_eq (htrail : Trail enter settings h s w links last u) {initial : Value F}
    (hs : initial.state? = s) :
    links.map (fun l => some l.source.name) ++ [last.map State.name]
      = (initial :: links.map Link.result).map Value.stateName? := by
  induction htrail generalizing initial with
  | nil s w => simp [Value.stateName?, hs]
  | cons _ _ hresult _ ih =>
      have hrest := ih (Value.state?_of_asState hresult)
      rw [List.map_cons, List.cons_append, hrest, List.map_cons, List.map_cons, List.map_cons]
      simp [Value.stateName?, hs]

/-- **What a run calls its states**, from a trail and the way it ends. -/
theorem named_of_trail (htrail : Trail enter settings h s w links last u) {initial : Value F}
    (hs : initial.state? = s) {outcome : Option (Except Fault (List (Token F))) × World F M}
    (hending : Ending enter settings h last u outcome) :
    Named enter settings h initial links last u outcome := by
  refine ⟨htrail.names_eq hs, ?_, ?_⟩
  · intro l hl
    obtain ⟨_, _, hresult⟩ := htrail.of_mem hl
    unfold Link.reports Value.stateName?
    rw [Value.state?_of_asState hresult]
  · -- The chain failed in a state, and so did the call, or it was the state that refused the
    -- result.
    intro e he
    cases hending with
    | @failed s _ _ _ _ hcall =>
        obtain rfl := Except.error.inj (Option.some.inj he)
        exact ⟨s, rfl, .inl (by rw [hcall])⟩
    | @refused s _ _ result _ _ hcall hresult =>
        obtain rfl := Except.error.inj (Option.some.inj he)
        obtain ⟨hnot, heq⟩ := Value.asState_eq_error_iff.mp hresult
        exact ⟨s, rfl, .inr ⟨result, by rw [hcall], hnot, heq⟩⟩
    | _ => cases he

end Chain

/-- **Wrapping is transparent.** Take a run, over any tokenizer, and let some of the values that
its calls hand back be replaced, and its initial value.

* If each is replaced by the same up to wrappings, the same callables are called, with the same
  cursors, and the run comes to the same tokens, or to the same fault but for a name, and leaves
  the same tokenizers behind.
* The same is true when all programs of a machine are replaced by such as do the same with values
  that are equal up to wrappings, so in runs within runs as well.
* If each is replaced by a value that stands for the very same state, as a callable and its first
  wrapping do, then nothing changes at all, names and records included.
* What a run calls a state, in its records and in a fault of its own, is the name of the value that
  stood for the state: that of the callable, enclosed once for every wrapping beyond the first.
* To call a state comes to calling the callable, through all wrappings.
* Wrapped callables are equal if and only if they are wrapped equally often and the callables are
  equal. So a state never equals a plain callable. Equal ones have equal hashes. -/
theorem wrapping_is_transparent [Callable F] [BEq F] (machine : Machine F M) (fuel : Nat)
    (h : Handle) (v : Value F) (w : World F M) :
    let calls := machine.calls fuel h v w
    let run := machine.exec fuel (.run h v) w
    (∀ (rewrap : F → Handle → World F M → Value F → Value F) (v' : Value F),
      let enter' := Chain.replaced rewrap (machine.enter fuel)
      let run' := Chain.run enter' fuel h v' w
      ((∀ f k x (u : Value F), u.Rewrapped (rewrap f k x u)) → v.Rewrapped v' →
        Chain.Agree calls (Chain.callsFrom enter' fuel h v' w) run run') ∧
      ((∀ f k x u source, (rewrap f k x u).asState source = u.asState source) →
        (∀ source, v'.asState source = v.asState source) → run' = run) ∧
      ∀ s, v'.asState Chain.initialName = .ok s → ∃ links last u,
        Chain.Trail enter' w.settings h s w links last u ∧
        Chain.Recorded w.settings h s w links last u run' ∧
        Chain.Named enter' w.settings h v' links last u run') ∧
    (∀ (machine' : Machine F M) (v' : Value F),
      (∀ f k, (Likeness.rewrapped F).Programs Value.Rewrapped (machine f k) (machine' f k)) →
      v.Rewrapped v' →
        Chain.Agree calls (machine'.calls fuel h v' w) run (machine'.exec fuel (.run h v') w)) ∧
    (∀ (f : F) (source : String),
      (Value.callable f).asState source = ((Value.callable f).wrapTimes 1).asState source) ∧
    (∀ (k : Nat) (f : F), ((Value.callable f).wrapTimes k).stateName?
      = some (State.encloseTimes (k - 1) (Callable.name f))) ∧
    (∀ (k : Nat) (f : F) (s : State F), ((Value.callable f).wrapTimes k).state? = some s →
      ∀ {α : Type} (enter : F → α), s.call enter = enter f) ∧
    (∀ (j k : Nat) (f g : F),
      ((Value.callable f).wrapTimes j).same ((Value.callable g).wrapTimes k) = true
        ↔ j = k ∧ (f == g) = true) ∧
    (∀ s s' : State F, (Value.state s).same (.state s') = true
      ↔ s.layers = s'.layers ∧ (s.callee == s'.callee) = true) ∧
    (∀ (s : State F) (f : F),
      (Value.state s).same (.callable f) = false ∧ (Value.callable f).same (.state s) = false) ∧
    ∀ {H : Type} (rule : Hashing F H),
      (∀ s s' : State F, (Value.state s).same (.state s') = true →
        (Value.state s).hash rule = (Value.state s').hash rule) ∧
      ∀ (j k : Nat) (f g : F),
        ((Value.callable f).wrapTimes j).same ((Value.callable g).wrapTimes k) = true →
        ((Value.callable f).wrapTimes j).hash rule =
          ((Value.callable g).wrapTimes k).hash rule := by
  intro calls run
  refine ⟨?_, ?_, fun _ _ => rfl, Value.stateName?_wrapTimes,
    fun _ _ _ hs _ => Value.call_of_state?_wrapTimes hs, Value.same_wrapTimes,
    fun _ _ => by rw [Value.same, State.same_iff], fun _ _ => by simp [Value.same],
    fun rule => ⟨fun s s' hsame => ?_, fun _ _ _ _ => Value.hash_wrapTimes_of_same rule⟩⟩
  · intro rewrap v' enter' run'
    refine ⟨?_, ?_, ?_⟩
    · intro hrewrap hv
      exact Chain.agree_of_simulates (Chain.simulates_replaced hrewrap machine fuel) fuel h hv w
    · intro hrewrap hv
      exact congrFun (Chain.run_replaced hrewrap (machine.enter fuel) fuel h hv) w
    · intro s hs
      -- The chain starts at the state that the value is turned into, and the reports name the
      -- layers of that.
      have hrun : run' = Chain.follow enter' w.settings h fuel s w := by
        show Chain.run enter' fuel h v' w = _
        unfold Chain.run
        rw [hs]
      obtain ⟨links, last, u, htrail, hending⟩ :=
        Chain.follow_path enter' w.settings h fuel s w
      rw [← hrun] at hending
      have hsteps : ∀ f k, (enter' f k).Steps := Chain.steps_replaced (machine.steps_enter fuel)
      exact ⟨links, last, u, htrail, htrail.recorded hsteps hending,
        Chain.named_of_trail htrail (Value.state?_of_asState hs) hending⟩
  · -- The states may call each other wrapped. Then the two machines are compared by the same
    -- relation.
    intro machine' v' hmachine hv
    exact Chain.agree_of_simulates
      (Likeness.simulates_enter Likeness.rewrapped_lawful hmachine fuel) fuel h hv w
  · rw [Value.same] at hsame
    rw [Value.hash, Value.hash, State.hash_eq_of_same rule hsame]

/-- Every value that is handed back is wrapped twice more, and the initial one three times. The
same states are called, under other names; the fault is the same but for the name. With no more
than the first wrapping the records stay as they are. -/
theorem wrapping_is_transparent_twice :
    let loud : Settings Ini.StateId := { traceStates := .bool true }
    let machine : Machine Ini.StateId Unit := fun s h => do
      Program.tell h .advance
      match s with
      | .line => return .callable .comment
      | .comment => return Ini.handOver id .key
      | _ => return .int 3
    let w : World Ini.StateId Unit := ({ settings := loud, memory := () : World _ _ }.create
      "abc".toList).2
    let twice := Chain.replaced (fun _ _ _ v => v.wrapTimes 2) (machine.enter 4)
    let once := Chain.replaced (fun _ _ _ v => match v with
      | .callable _ => v.wrapTimes 1
      | v => v) (machine.enter 4)
    let first : Value Ini.StateId := .callable .line
    Chain.Agree (machine.calls 4 0 first w) (Chain.callsFrom twice 4 0 (first.wrapTimes 3) w)
        (machine.exec 4 (.run 0 first) w) (Chain.run twice 4 0 (first.wrapTimes 3) w) ∧
      (Chain.run twice 4 0 (first.wrapTimes 3) w).1 = some (.error (.notAState
        "StateFunction(StateFunction(key_state))" "int")) ∧
      (Chain.run twice 4 0 (first.wrapTimes 3) w).2.records.map Record.message =
        ["StateFunction(StateFunction(line_state)) -> StateFunction(comment_state) at 1",
          "StateFunction(comment_state) -> StateFunction(StateFunction(key_state)) at 2"] ∧
      Chain.run once 4 0 (first.wrapTimes 1) w = machine.exec 4 (.run 0 first) w ∧
      (machine.exec 4 (.run 0 first) w).2.records.map Record.message =
        ["line_state -> comment_state at 1", "comment_state -> key_state at 2"] := by
  intro loud machine w twice once first
  obtain ⟨hreplaced, _⟩ := wrapping_is_transparent machine 4 0 first w
  obtain ⟨hagree, _⟩ := hreplaced (fun _ _ _ v => v.wrapTimes 2) (first.wrapTimes 3)
  obtain ⟨_, hsame, _⟩ := hreplaced (fun _ _ _ v => match v with
    | .callable _ => v.wrapTimes 1
    | v => v) (first.wrapTimes 1)
  have honce : Chain.run once 4 0 (first.wrapTimes 1) w = machine.exec 4 (.run 0 first) w := by
    refine hsame ?_ fun _ => rfl
    intro _ _ _ v _
    cases v <;> rfl
  exact ⟨hagree (fun _ _ _ v => v.rewrapped_wrapTimes 2) (first.rewrapped_wrapTimes 3), rfl,
    by decide +kernel, honce, by decide +kernel⟩

end LexChain
