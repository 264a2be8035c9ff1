import LexChain.Program
import Mathlib.Logic.Function.Basic

/-!
# `LexChain.Proofs.Turns`: what is done with the settings in force

A `Turn` is one thing that is done with the settings in force: they are looked up, replaced, or
a part runs in a scope of its own, where turns are done again. `Turn.Leads` is the law of
scopes: inside, the settings are at first those of `Scope.entry`; what is looked up is what was
found or set last, at the same depth; and behind a scope the settings before it are in force
again, whatever was done inside. So only what is done at the outermost depth decides in the end
(`Turn.Leads.eq_getLast`).

The law says nothing of how scopes come about. `Turn.Plays` does: each context has settings of
its own, a copied and a fresh scope run in a new context, and a scope with given settings runs
in the present one, where the settings before it are kept aside and set again at the end.
The two agree, whatever other contexts there are (`Turn.Plays.leads`, `Turn.Leads.plays`), and
no other context is touched (`Turn.Plays.spares`).
-/

set_option autoImplicit false

namespace LexChain

variable {F : Type}

/-- Something that is done with the settings in force. -/
inductive Turn (F : Type) where
  /-- They are looked up and found to be these. -/
  | found (s : Settings F)
  | replaced (s : Settings F)
  /-- A part runs in a scope, and this is done there. -/
  | inside (scope : Scope F) (inner : List (Turn F))

namespace Turn

/-- The settings that a turn puts in the place of others, outside of all scopes. -/
def replacement? : Turn F → Option (Settings F)
  | replaced s => some s
  | _ => none

/-! ### The law of scopes -/

/-- Turns lead from the settings in force before them to those behind them. -/
inductive Leads : Settings F → List (Turn F) → Settings F → Prop
  | nil (s : Settings F) : Leads s [] s
  | found {s u : Settings F} {ts : List (Turn F)} (hrest : Leads s ts u) :
      Leads s (found s :: ts) u
  | replaced {s s' u : Settings F} {ts : List (Turn F)} (hrest : Leads s' ts u) :
      Leads s (replaced s' :: ts) u
  | inside {s v u : Settings F} {scope : Scope F} {inner ts : List (Turn F)}
      (hinner : Leads (scope.entry s) inner v) (hrest : Leads s ts u) :
      Leads s (inside scope inner :: ts) u

/-- Turns up to some settings and turns from there on. -/
theorem Leads.append {s u v : Settings F} {ts us : List (Turn F)} (hts : Leads s ts u)
    (hus : Leads u us v) : Leads s (ts ++ us) v := by
  induction hts with
  | nil s => exact hus
  | found _ ih => exact .found (ih hus)
  | replaced _ ih => exact .replaced (ih hus)
  | inside hinner _ _ ih => exact .inside hinner (ih hus)

/-- **The last replacement decides**, and without one all is as before. What is done in
scopes does not count. -/
theorem Leads.eq_getLast {s u : Settings F} {ts : List (Turn F)} (hts : Leads s ts u) :
    u = (ts.filterMap replacement?).getLast?.getD s := by
  induction hts with
  | nil s => rfl
  | found _ ih => exact ih
  | replaced _ ih =>
      rw [ih]
      simp [replacement?, List.getLast?_cons]
  | inside _ _ _ ih => exact ih

end Turn

/-! ### Contexts -/

/-- The settings in force in each context, the contexts being numbered, and the context that
is the present one. -/
structure Contexts (F : Type) where
  values : Nat → Settings F
  /-- The number of the next new context. -/
  next : Nat
  current : Nat
  current_lt : current < next

namespace Contexts

/-- The settings in force in the present context. -/
def value (c : Contexts F) : Settings F := c.values c.current

/-- Other settings in the present context. -/
def set (c : Contexts F) (s : Settings F) : Contexts F :=
  { c with values := Function.update c.values c.current s }

/-- A new context with settings to begin with, which becomes the present one. -/
def enter (c : Contexts F) (s : Settings F) : Contexts F where
  values := Function.update c.values c.next s
  next := c.next + 1
  current := c.next
  current_lt := Nat.lt_succ_self _

/-- An earlier context is the present one again. -/
def leave (c : Contexts F) (i : Nat) (hi : i < c.next) : Contexts F :=
  { c with current := i, current_lt := hi }

/-- What is set is in force. -/
@[simp] theorem value_set (c : Contexts F) (s : Settings F) : (c.set s).value = s :=
  Function.update_self ..

/-- What is entered with is in force. -/
@[simp] theorem value_enter (c : Contexts F) (s : Settings F) : (c.enter s).value = s :=
  Function.update_self ..

/-- Later contexts: the present one is the same, and all others are as they were. -/
structure Spares (c d : Contexts F) : Prop where
  current_eq : d.current = c.current
  next_le : c.next ≤ d.next
  values_eq : ∀ i < c.next, i ≠ c.current → d.values i = c.values i

/-- Contexts spare themselves. -/
theorem Spares.refl (c : Contexts F) : c.Spares c := ⟨rfl, Nat.le_refl _, fun _ _ _ => rfl⟩

/-- What is spared twice is spared. -/
theorem Spares.trans {c d e : Contexts F} (hcd : c.Spares d) (hde : d.Spares e) : c.Spares e where
  current_eq := hde.current_eq.trans hcd.current_eq
  next_le := Nat.le_trans hcd.next_le hde.next_le
  values_eq i hi hne := by
    rw [hde.values_eq i (Nat.lt_of_lt_of_le hi hcd.next_le) (hcd.current_eq ▸ hne),
      hcd.values_eq i hi hne]

/-- To set something spares the contexts around. -/
theorem spares_set (c : Contexts F) (s : Settings F) : c.Spares (c.set s) :=
  ⟨rfl, Nat.le_refl _, fun _ _ hne => Function.update_of_ne hne ..⟩

/-- What is done in a new context touches none of those before, not even the one that was
present. -/
theorem Spares.values_eq_of_enter {c d : Contexts F} {s : Settings F} (hd : (c.enter s).Spares d)
    {i : Nat} (hi : i < c.next) : d.values i = c.values i := by
  rw [hd.values_eq i (Nat.lt_succ_of_lt hi) (Nat.ne_of_lt hi)]
  exact Function.update_of_ne (Nat.ne_of_lt hi) ..

/-- What spares the context that was entered spares, once that is left, the one around it. -/
theorem Spares.leave {c d : Contexts F} {s : Settings F} (hd : (c.enter s).Spares d)
    (hcurrent : c.current < d.next) : c.Spares (d.leave c.current hcurrent) where
  current_eq := rfl
  next_le := Nat.le_of_succ_le hd.next_le
  values_eq _ hi _ := hd.values_eq_of_enter hi

/-- On leaving a context the settings from before are in force again, if they were spared. -/
theorem Spares.value_leave {c d : Contexts F} {s : Settings F} (hd : (c.enter s).Spares d)
    (hcurrent : c.current < d.next) : (d.leave c.current hcurrent).value = c.value :=
  hd.values_eq_of_enter c.current_lt

end Contexts

namespace Turn

/-- Turns played on contexts. -/
inductive Plays : Contexts F → List (Turn F) → Contexts F → Prop
  | nil (c : Contexts F) : Plays c [] c
  | found {c d : Contexts F} {ts : List (Turn F)} (hrest : Plays c ts d) :
      Plays c (found c.value :: ts) d
  | replaced {c d : Contexts F} {s : Settings F} {ts : List (Turn F)}
      (hrest : Plays (c.set s) ts d) : Plays c (replaced s :: ts) d
  /-- The settings in force are kept aside, and set again when the scope is left. -/
  | given {c d e : Contexts F} {s : Settings F} {inner ts : List (Turn F)}
      (hinner : Plays (c.set s) inner d) (hrest : Plays (d.set c.value) ts e) :
      Plays c (inside (.given s) inner :: ts) e
  /-- A new context begins with the settings in force. -/
  | copied {c d e : Contexts F} {inner ts : List (Turn F)}
      (hinner : Plays (c.enter c.value) inner d) (hcurrent : c.current < d.next)
      (hrest : Plays (d.leave c.current hcurrent) ts e) : Plays c (inside .copied inner :: ts) e
  /-- A new context begins with the default settings. -/
  | fresh {c d e : Contexts F} {inner ts : List (Turn F)}
      (hinner : Plays (c.enter .default) inner d) (hcurrent : c.current < d.next)
      (hrest : Plays (d.leave c.current hcurrent) ts e) : Plays c (inside .fresh inner :: ts) e

/-- **Only the present context is touched**, and it is the present one in the end. -/
theorem Plays.spares {c d : Contexts F} {ts : List (Turn F)} (hts : Plays c ts d) :
    c.Spares d := by
  induction hts with
  | nil c => exact .refl c
  | found _ ih => exact ih
  | replaced _ ih => exact (Contexts.spares_set ..).trans ih
  | given _ _ ihinner ih =>
      exact (Contexts.spares_set ..).trans (ihinner.trans ((Contexts.spares_set ..).trans ih))
  | copied _ hcurrent _ ihinner ih => exact (ihinner.leave hcurrent).trans ih
  | fresh _ hcurrent _ ihinner ih => exact (ihinner.leave hcurrent).trans ih

/-- **Contexts keep the law of scopes.** -/
theorem Plays.leads {c d : Contexts F} {ts : List (Turn F)} (hts : Plays c ts d) :
    Leads c.value ts d.value := by
  -- Induction on the turns. For a thread the contexts are entered, and what it left is dropped
  -- on leaving, so that the value is the one from before.
  induction hts with
  | nil c => exact .nil _
  | found _ ih => exact .found ih
  | replaced _ ih => exact .replaced (by rwa [Contexts.value_set] at ih)
  | given _ _ ihinner ih =>
      rw [Contexts.value_set] at ihinner ih
      exact .inside ihinner ih
  | copied hinner hcurrent _ ihinner ih =>
      rw [Contexts.value_enter] at ihinner
      rw [hinner.spares.value_leave] at ih
      exact .inside ihinner ih
  | fresh hinner hcurrent _ ihinner ih =>
      rw [Contexts.value_enter] at ihinner
      rw [hinner.spares.value_leave] at ih
      exact .inside ihinner ih

/-- What keeps the law of scopes can be played on contexts. -/
theorem Leads.plays {s u : Settings F} {ts : List (Turn F)} (hts : Leads s ts u)
    {c : Contexts F} (hc : c.value = s) : ∃ d, Plays c ts d ∧ d.value = u := by
  induction hts generalizing c with
  | nil s => exact ⟨c, .nil c, hc⟩
  | found _ ih =>
      obtain ⟨d, hplays, hd⟩ := ih hc
      exact ⟨d, hc ▸ .found hplays, hd⟩
  | replaced _ ih =>
      obtain ⟨d, hplays, hd⟩ := ih (c.value_set _)
      exact ⟨d, .replaced hplays, hd⟩
  | @inside s _ _ scope _ _ _ _ ihinner ih =>
      subst hc
      -- A scope is left with the settings in force that were in force before it.
      cases scope with
      | given s' =>
          obtain ⟨d, hinner, _⟩ := ihinner (c.value_set s')
          obtain ⟨e, hrest, he⟩ := ih (d.value_set c.value)
          exact ⟨e, .given hinner hrest, he⟩
      | copied =>
          obtain ⟨d, hinner, _⟩ := ihinner (c.value_enter c.value)
          have hcurrent : c.current < d.next :=
            Nat.lt_of_lt_of_le c.current_lt (Nat.le_of_succ_le hinner.spares.next_le)
          obtain ⟨e, hrest, he⟩ := ih (hinner.spares.value_leave hcurrent)
          exact ⟨e, .copied hinner hcurrent hrest, he⟩
      | fresh =>
          obtain ⟨d, hinner, _⟩ := ihinner (c.value_enter .default)
          have hcurrent : c.current < d.next :=
            Nat.lt_of_lt_of_le c.current_lt (Nat.le_of_succ_le hinner.spares.next_le)
          obtain ⟨e, hrest, he⟩ := ih (hinner.spares.value_leave hcurrent)
          exact ⟨e, .fresh hinner hcurrent hrest, he⟩

end Turn

end LexChain
