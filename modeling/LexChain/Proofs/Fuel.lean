import LexChain.Proofs.Comparison

/-!
# `LexChain.Proofs.Fuel`: more fuel changes no outcome

An execution that ended with some fuel ends in the same way with more: with the same
result or fault, and in the same world (`Machine.exec_extends`). So a program on a machine
has one outcome at most, whatever the fuel (`Machine.Ends.unique`), and `Machine.Ends`
can speak of it without naming any: a program that has none does not end.

`Execution.Extends` is the relation behind this, "the same, unless the fuel did not last".
It is a comparison of executions that start from one world and leave one world, which says
nothing if the first one runs out of fuel (`Comparison.unlessExhausted`).
-/

set_option autoImplicit false

namespace LexChain

variable {F M α β σ : Type}

/-- The second execution does what the first one does, unless that runs out of fuel. -/
def Execution.Extends (x y : Execution F M α) : Prop :=
  ∀ w : World F M, (x w).1 ≠ none → y w = x w

/-- Executions that do the same with different amounts of fuel, as long as these last. -/
def Comparison.unlessExhausted : Comparison F M where
  steps := Program.Beside fun _ => True
  lax := True
  Leads w v w' v' := w = v ∧ w' = v'
  start := fun ⟨_, heq⟩ => ⟨heq, heq⟩
  trans := fun ⟨heq, _⟩ ⟨_, heq'⟩ => ⟨heq, heq'⟩
  enter := by
    rintro w _ s _ rfl ⟨rfl, -⟩
    exact ⟨rfl, rfl⟩
  leave := by
    rintro w _ x _ s _ rfl ⟨rfl, -⟩ ⟨-, rfl⟩
    exact ⟨rfl, rfl⟩

open Comparison (unlessExhausted)

namespace Execution

/-- What is compared is whether one execution extends the other. -/
theorem extends_iff {x y : Execution F M α} : unlessExhausted.Relates Eq x y ↔ x.Extends y := by
  constructor
  · intro hxy w hw
    rcases Comparison.relates_iff.mp hxy (w := w) (v := w) ⟨rfl, rfl⟩ with
      ⟨-, hnone⟩ | ⟨houtcome, -, hworld⟩
    · exact absurd hnone hw
    · exact Prod.ext (Results.outcome_eq (fun _ _ => id) houtcome).symm hworld.symm
  · -- Where the left side is exhausted nothing is claimed, and elsewhere both do the same.
    rintro hxy
    refine Comparison.relates_iff.mpr ?_
    rintro w _ ⟨rfl, -⟩
    by_cases hnone : (x w).1 = none
    · exact .inl ⟨trivial, hnone⟩
    · rw [hxy w hnone]
      exact .inr ⟨Results.outcome_refl (fun _ => rfl) _, rfl, rfl⟩

/-- Every execution extends itself. -/
theorem Extends.refl (x : Execution F M α) : x.Extends x := fun _ _ => rfl

/-- Out of fuel at once is extended by everything. -/
theorem extends_of_none {x : Execution F M α} (hx : ∀ w, (x w).1 = none)
    (y : Execution F M α) : x.Extends y := by
  intro w hw
  exact absurd (hx w) hw

/-- One execution after the other, each with an extension. -/
theorem Extends.bind {x y : Execution F M α} {k l : α → Execution F M β} (hxy : x.Extends y)
    (hkl : ∀ a, (k a).Extends (l a)) : (x.bind k).Extends (y.bind l) := by
  refine extends_iff.mp ((extends_iff.mpr hxy).bind ?_)
  rintro a _ rfl
  exact extends_iff.mpr (hkl a)

/-- One of two executions, each with an extension, by what the world is. -/
theorem Extends.ite {x x' y y' : Execution F M α} (c : World F M → Bool) (hx : x.Extends x')
    (hy : y.Extends y') :
    Execution.Extends (fun w => if c w then x w else y w) fun w => if c w then x' w else y' w := by
  intro w hw
  dsimp only at hw ⊢
  cases hc : c w with
  | true =>
      simp only [hc, if_true] at hw ⊢
      exact hx w hw
  | false =>
      simp only [hc, Bool.false_eq_true, if_false] at hw ⊢
      exact hy w hw

end Execution

open Execution (Extends extends_iff extends_of_none bind_of_none bind_of_error bind_of_ok)

/-- Every program does what it does with less fuel. -/
theorem Program.corresponds_unlessExhausted (p : Program F M α) :
    p.Corresponds unlessExhausted.toCorrespondence Eq p :=
  p.each_true.corresponds (fun _ _ => Iff.rfl) (fun _ => rfl) fun hstep hp =>
    Program.Beside.intro hstep hp

variable [Callable F]

namespace Chain

/-- Chains in one world are alike, whatever their fuel. -/
theorem unlessExhausted (h : Handle) :
    (Comparison.unlessExhausted (F := F) (M := M)).Chains h h Eq Eq Eq Eq := by
  refine .of_eq (fun _ => rfl) ?_ ?_ ?_ ?_ ?_
  · rintro w _ ⟨rfl, -⟩
    rfl
  · rintro w _ ⟨rfl, -⟩
    rfl
  · rintro w _ ⟨rfl, -⟩
    rfl
  · rintro w _ g _ rfl ⟨rfl, -⟩
    exact ⟨rfl, rfl⟩
  · rintro w _ g _ s t rfl ⟨rfl, -⟩
    exact ⟨rfl, rfl⟩

/-- A run with more fuel, for itself and for its calls, extends the one with less. -/
theorem extends_run {enter enter' : F → Handle → Execution F M (Value F)}
    (henter : ∀ f h, (enter f h).Extends (enter' f h)) {n m : Nat}
    (hnm : n ≤ m) (h : Handle) (initial : Value F) :
    (run enter n h initial).Extends (run enter' m h initial) := by
  refine extends_iff.mp ((unlessExhausted h).run_of_eq (fun f => ?_)
    (.inr ⟨trivial, .of_forall fun _ => hnm⟩) rfl)
  exact extends_iff.mpr (henter f h)

end Chain

/-- What is known of single steps: where fuel is needed more of it changes nothing. -/
theorem Comparison.steps_unlessExhausted {l : Filter Unit} :
    (unlessExhausted (F := F) (M := M)).Steps l (fun f h g k => f = g ∧ h = k) Eq where
  entered := by
    rintro f _ h _ w _ ⟨rfl, rfl⟩ ⟨rfl, -⟩
    exact ⟨rfl, rfl⟩
  exec := by
    rintro enter enter' n rounds hcalls hrounds α _ _ p _ ⟨hstep, -⟩
    -- Only a run and a call use fuel. All else is the same step on both sides.
    cases p with
    | run h initial =>
        exact (Chain.unlessExhausted h).run_of_eq (fun f => hcalls f h f h ⟨rfl, rfl⟩) hrounds rfl
    | call f h => exact hcalls f h f h ⟨rfl, rfl⟩
    | pure | bind | fail | attempt | iterate | within => exact hstep.elim
    | _ =>
        refine Comparison.related_of_forall ?_
        rintro w _ ⟨rfl, -⟩
        exact ⟨Results.outcome_refl (fun _ => rfl) _, rfl, rfl⟩

/-- A program with more fuel, for itself and for its calls, extends the one with less. -/
theorem Program.extends_exec {enter enter' : F → Handle → Execution F M (Value F)}
    (henter : ∀ f h, (enter f h).Extends (enter' f h)) {n m : Nat} (hnm : n ≤ m)
    (p : Program F M α) : (p.exec enter n).Extends (p.exec enter' m) := by
  have hrounds : unlessExhausted.Covers (M := M) (F := F) (⊤ : Filter Unit) n fun _ => m :=
    .inr ⟨trivial, .of_forall fun _ => hnm⟩
  refine extends_iff.mp (p.corresponds_unlessExhausted.exec
    (Comparison.steps_unlessExhausted.exec ?_ hrounds) hrounds)
  rintro f h _ _ ⟨rfl, rfl⟩
  exact extends_iff.mpr (henter f h)

/-- A call with more fuel extends the one with less. -/
theorem Machine.extends_enter (machine : Machine F M) {n m : Nat} (hnm : n ≤ m) (f : F)
    (h : Handle) : (machine.enter n f h).Extends (machine.enter m f h) := by
  refine extends_iff.mp (Comparison.steps_unlessExhausted.enter ?_
    (.inr ⟨trivial, .of_forall fun _ => hnm⟩) ⟨rfl, rfl⟩)
  rintro f h _ _ ⟨rfl, rfl⟩
  exact (machine f h).corresponds_unlessExhausted

/-- **More fuel changes no outcome.** -/
theorem Machine.exec_extends (machine : Machine F M) {n m : Nat} (hnm : n ≤ m)
    (p : Program F M α) : (machine.exec n p).Extends (machine.exec m p) :=
  Program.extends_exec (machine.extends_enter hnm) hnm p

/-- On a machine a program ends, started in one world, with a result or a fault and in
another world. -/
def Machine.Ends (machine : Machine F M) (p : Program F M α) (w : World F M)
    (r : Except Fault α) (w' : World F M) : Prop :=
  ∃ fuel, machine.exec fuel p w = (some r, w')

/-- A program that came to an outcome with some fuel has ended in the world that it left. -/
theorem Machine.ends_exec {machine : Machine F M} {p : Program F M α} {fuel : Nat}
    {w : World F M} {r : Except Fault α} (hexec : (machine.exec fuel p w).1 = some r) :
    machine.Ends p w r (machine.exec fuel p w).2 :=
  ⟨fuel, Prod.ext hexec rfl⟩

/-- A program that ends does so with any fuel from some amount on. -/
theorem Machine.Ends.exists_forall {machine : Machine F M} {p : Program F M α}
    {w w' : World F M} {r : Except Fault α} (hends : machine.Ends p w r w') :
    ∃ least, ∀ fuel, least ≤ fuel → machine.exec fuel p w = (some r, w') := by
  obtain ⟨least, hexec⟩ := hends
  refine ⟨least, ?_⟩
  intro fuel hfuel
  have hne : (machine.exec least p w).1 ≠ none := by simp [hexec]
  rw [machine.exec_extends hfuel p w hne, hexec]

/-- **A program has one outcome at most.** -/
theorem Machine.Ends.unique {machine : Machine F M} {p : Program F M α} {w v v' : World F M}
    {r r' : Except Fault α} (hends : machine.Ends p w r v) (hends' : machine.Ends p w r' v') :
    r = r' ∧ v = v' := by
  obtain ⟨least, hexec⟩ := hends.exists_forall
  obtain ⟨least', hexec'⟩ := hends'.exists_forall
  have hboth := (hexec (max least least') (by omega)).symm.trans (hexec' _ (by omega))
  simpa using hboth

/-- A program ends with its first part, if that ends with a fault, and with the rest of it
otherwise. -/
theorem Machine.ends_bind_iff {machine : Machine F M} {p : Program F M α}
    {k : α → Program F M β} {w x : World F M} {r : Except Fault β} :
    machine.Ends (.bind p k) w r x ↔
      (∃ e, machine.Ends p w (.error e) x ∧ r = .error e) ∨
        ∃ a v, machine.Ends p w (.ok a) v ∧ machine.Ends (k a) v r x := by
  constructor
  · rintro ⟨fuel, hexec⟩
    have hbind : (machine.exec fuel p).bind (fun a => machine.exec fuel (k a)) w
        = (some r, x) := hexec
    rcases hp : machine.exec fuel p w with ⟨_ | e | a, v⟩
    · rw [bind_of_none hp] at hbind
      simp at hbind
    · rw [bind_of_error hp] at hbind
      obtain ⟨rfl, rfl⟩ : .error e = r ∧ v = x := by simpa using hbind
      exact .inl ⟨e, ⟨fuel, hp⟩, rfl⟩
    · rw [bind_of_ok hp] at hbind
      exact .inr ⟨a, v, ⟨fuel, hp⟩, ⟨fuel, hbind⟩⟩
  · -- The parts may have needed different fuel. With the larger amount both end as they did.
    rintro (⟨e, ⟨fuel, hexec⟩, rfl⟩ | ⟨a, v, hp, hk⟩)
    · exact ⟨fuel, bind_of_error hexec _⟩
    · obtain ⟨least, hexec⟩ := hp.exists_forall
      obtain ⟨least', hexec'⟩ := hk.exists_forall
      refine ⟨max least least', ?_⟩
      show (machine.exec _ p).bind (fun a => machine.exec _ (k a)) w = _
      rw [bind_of_ok (hexec _ (by omega)), hexec' _ (by omega)]

end LexChain
