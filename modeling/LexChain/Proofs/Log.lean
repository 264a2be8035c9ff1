import LexChain.Program.Exec

/-!
# `LexChain.Proofs.Log`: what is logged of an execution

An execution can be told in a list, of what it does with the settings, say, or of what it does to
which tokenizer. Such a `Log` is put together as the execution is: one list after the other when
one part follows another with its result (`Log.andThen`), and round after round in a loop
(`Log.iterate`).

A law about what is logged relates the world before, the list, and the world after. If it is kept
when one way follows another (`Log.IsLaw`), it passes from the parts of an execution to the whole,
whatever comes of these: `Execution.Keeps.bind`, `Execution.Keeps.attempt` and
`Execution.Keeps.iterate`.
-/

set_option autoImplicit false

namespace LexChain

variable {F M ε α β σ : Type}

/-- What is told of an execution, from each world on and in order. -/
abbrev Log (F M ε : Type) := World F M → List ε

namespace Log

/-- The log of an execution, and of another one that depends on its result. -/
def andThen (l : Log F M ε) (x : Execution F M α) (m : α → Log F M ε) : Log F M ε :=
  fun w => l w ++ match x w with
    | (some (.ok a), v) => m a v
    | _ => []

/-- The log of a step repeated until it yields a result. -/
def iterate (l : σ → Log F M ε) (step : σ → Execution F M (σ ⊕ α)) : Nat → σ → Log F M ε
  | 0, _ => fun _ => []
  | fuel + 1, s => (l s).andThen (step s) (Sum.elim (iterate l step fuel) fun _ _ => [])

/-- A law about what is logged on the way from one world to another, which holds of no way at all
and of one way after another. -/
structure IsLaw (R : World F M → List ε → World F M → Prop) : Prop where
  nil : ∀ w, R w [] w
  append : ∀ {w v u : World F M} {es fs : List ε}, R w es v → R v fs u → R w (es ++ fs) u

end Log

/-- Whatever comes of the execution, the law holds of what is logged and the world that is left. -/
def Execution.Keeps (R : World F M → List ε → World F M → Prop) (x : Execution F M α)
    (l : Log F M ε) : Prop :=
  ∀ w, R w (l w) (x w).2

namespace Execution

variable {R : World F M → List ε → World F M → Prop} {x : Execution F M α} {l : Log F M ε}

/-- What is known once the outcome is. -/
theorem Keeps.of_eq (hx : x.Keeps R l) {w v : World F M} {r : Option (Except Fault α)}
    (hxw : x w = (r, v)) : R w (l w) v := by
  have hw := hx w
  rwa [hxw] at hw

/-- **One execution after the other.** Only with a result does the second one add to the log. -/
theorem Keeps.bind (hR : Log.IsLaw R) {k : α → Execution F M β} {m : α → Log F M ε}
    (hx : x.Keeps R l) (hk : ∀ a, (k a).Keeps R (m a)) : (x.bind k).Keeps R (l.andThen x m) := by
  intro w
  unfold Log.andThen
  rcases hxw : x w with ⟨_ | e | a, v⟩
  · rw [bind_of_none hxw]
    exact hR.append (hx.of_eq hxw) (hR.nil v)
  · rw [bind_of_error hxw]
    exact hR.append (hx.of_eq hxw) (hR.nil v)
  · rw [bind_of_ok hxw]
    exact hR.append (hx.of_eq hxw) (hk a v)

/-- **A fault as a value** is no matter of the log. -/
theorem Keeps.attempt (hx : x.Keeps R l) : x.attempt.Keeps R l := by
  intro w
  unfold Execution.attempt
  rcases hxw : x w with ⟨_ | r, v⟩ <;> exact hx.of_eq hxw

/-- **A step repeated until it yields a result.** By induction on the rounds. -/
theorem Keeps.iterate (hR : Log.IsLaw R) {step : σ → Execution F M (σ ⊕ α)} {l : σ → Log F M ε}
    (hstep : ∀ s, (step s).Keeps R (l s)) (rounds : Nat) (s : σ) :
    (iterate step rounds s).Keeps R (Log.iterate l step rounds s) := by
  induction rounds generalizing s with
  | zero => exact hR.nil
  | succ rounds ih =>
      rw [iterate_succ]
      refine (hstep s).bind hR fun r => ?_
      cases r with
      | inl s' => exact ih s'
      | inr a => exact hR.nil

end Execution

end LexChain
