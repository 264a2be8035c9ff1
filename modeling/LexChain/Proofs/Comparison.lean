import LexChain.Program.Exec
import Mathlib.Order.Filter.Tendsto

/-!
# `LexChain.Proofs.Comparison`: executions side by side

Many laws compare two executions: from worlds that have something in common they come to outcomes
that correspond, and leave worlds that have it in common again. What this is differs from law to
law, but how it passes from the parts of an execution to the whole does not. It is said here once.

A `Comparison` names what a law is about. `Leads` says what becomes of a pair of worlds, and has to
be kept when one part of an execution follows another (`trans`) and in a scope (`leave`).
`Comparison.Related` is the law itself, for one execution on the left and, on the right, for almost
all of a family of executions, in the sense of a filter: so the right one may need more fuel than
the left one, and how much is left open. `Comparison.Relates` is the case of a single execution.

There is one lemma for each way to put executions together (`Related.bind`, `Related.attempt`,
`Related.iterate`, `Related.within`), for chains (`Chains.run`), for programs that do corresponding
steps (`Program.Corresponds.exec`) and for calls on two machines (`Comparison.Steps.enter`). So a
law has to deal with single steps only: with what a tokenizer is asked and told, with what chains
report, and with what becomes of settings and memory.
-/

set_option autoImplicit false

namespace LexChain

variable {F M α β γ δ σ τ ι : Type}

/-! ### Results and outcomes -/

/-- Two results that are related, or two faults that are. -/
inductive Results (faults : Fault → Fault → Prop) (Q : α → β → Prop) :
    Except Fault α → Except Fault β → Prop
  | ok {a : α} {b : β} (hab : Q a b) : Results faults Q (.ok a) (.ok b)
  | error {e e' : Fault} (he : faults e e') : Results faults Q (.error e) (.error e')

namespace Results

variable {faults : Fault → Fault → Prop} {Q S : α → β → Prop}

/-- The results may be related more widely. -/
theorem mono (hQS : ∀ a b, Q a b → S a b) {r : Except Fault α} {r' : Except Fault β}
    (hr : Results faults Q r r') : Results faults S r r' := by
  cases hr with
  | ok hab => exact .ok (hQS _ _ hab)
  | error he => exact .error he

/-- What is related to itself comes out so. -/
theorem refl {Q : α → α → Prop} (hfaults : ∀ e, faults e e) (hQ : ∀ a, Q a a)
    (r : Except Fault α) : Results faults Q r r := by
  cases r with
  | ok a => exact .ok (hQ a)
  | error e => exact .error (hfaults e)

/-- With equal faults and equal results there is one outcome only. -/
theorem eq (hfaults : ∀ e e', faults e e' → e = e') {r r' : Except Fault α}
    (hr : Results faults Eq r r') : r = r' := by
  cases hr with
  | ok hab => rw [hab]
  | error he => rw [hfaults _ _ he]

/-- With equal faults and equal results there is one outcome only, the end of the fuel included. -/
theorem outcome_eq (hfaults : ∀ e e', faults e e' → e = e') {o o' : Option (Except Fault α)}
    (ho : Option.Rel (Results faults Eq) o o') : o = o' := by
  cases ho with
  | none => rfl
  | some hr => rw [hr.eq hfaults]

/-- Equal outcomes correspond. -/
theorem outcome_refl (hfaults : ∀ e, faults e e) (o : Option (Except Fault α)) :
    Option.Rel (Results faults Eq) o o := by
  cases o with
  | none => exact .none
  | some r => exact .some (.refl hfaults (fun _ => rfl) r)

end Results

/-! ### Programs step by step -/

/-- What two programs may differ in: in their faults, in the scopes that parts of them run in, and
in the single steps that they are made of. -/
structure Correspondence (F M : Type) where
  faults : Fault → Fault → Prop := Eq
  scopes : Scope F → Scope F → Prop := Eq
  /-- Which steps correspond, and how their results are related then. -/
  steps : {α β : Type} → (α → β → Prop) → Program F M α → Program F M β → Prop

/-- Two programs that are put together alike from corresponding steps, and go on so after
corresponding results. -/
inductive Program.Corresponds (K : Correspondence F M) :
    {α β : Type} → (α → β → Prop) → Program F M α → Program F M β → Prop
  | step {α β : Type} {Q : α → β → Prop} {p : Program F M α} {q : Program F M β}
      (hpq : K.steps Q p q) : Corresponds K Q p q
  | pure {α β : Type} {Q : α → β → Prop} {a : α} {b : β} (hab : Q a b) :
      Corresponds K Q (.pure a) (.pure b)
  | bind {α β γ δ : Type} {Q : α → β → Prop} {S : γ → δ → Prop} {p : Program F M α}
      {q : Program F M β} {f : α → Program F M γ} {g : β → Program F M δ}
      (hpq : Corresponds K Q p q) (hfg : ∀ a b, Q a b → Corresponds K S (f a) (g b)) :
      Corresponds K S (.bind p f) (.bind q g)
  /-- A relation between the results may be replaced by a wider one. -/
  | mono {α β : Type} {Q S : α → β → Prop} {p : Program F M α} {q : Program F M β}
      (hpq : Corresponds K Q p q) (hQS : ∀ a b, Q a b → S a b) : Corresponds K S p q
  | fail {α β : Type} {Q : α → β → Prop} {e e' : Fault} (he : K.faults e e') :
      Corresponds K Q (.fail e) (.fail e')
  | attempt {α β : Type} {Q : α → β → Prop} {p : Program F M α} {q : Program F M β}
      (hpq : Corresponds K Q p q) :
      Corresponds K (Results K.faults Q) (.attempt p) (.attempt q)
  | iterate {σ τ α β : Type} {I : σ → τ → Prop} {Q : α → β → Prop}
      {step : σ → Program F M (σ ⊕ α)} {step' : τ → Program F M (τ ⊕ β)} {seed : σ} {seed' : τ}
      (hstep : ∀ s s', I s s' → Corresponds K (Sum.LiftRel I Q) (step s) (step' s'))
      (hseed : I seed seed') : Corresponds K Q (.iterate step seed) (.iterate step' seed')
  | within {α β : Type} {Q : α → β → Prop} {p : Program F M α} {q : Program F M β}
      {scope scope' : Scope F} (hscope : K.scopes scope scope') (hpq : Corresponds K Q p q) :
      Corresponds K Q (.within scope p) (.within scope' q)

namespace Program.Corresponds

variable {K : Correspondence F M}

/-- With equal results both go on from the same one. -/
theorem seq {p q : Program F M α} {f g : α → Program F M β} (hpq : p.Corresponds K Eq q)
    (hfg : ∀ a, (f a).Corresponds K Eq (g a)) :
    (Program.bind p f).Corresponds K Eq (.bind q g) := by
  refine .bind hpq ?_
  rintro a _ rfl
  exact hfg a

/-- Where faults correspond only to themselves they are equal as values too. -/
theorem caught (hfaults : ∀ e e', K.faults e e' → e = e') {p q : Program F M α}
    (hpq : p.Corresponds K Eq q) : (Program.attempt p).Corresponds K Eq (.attempt q) :=
  hpq.attempt.mono fun _ _ hr => hr.eq hfaults

/-- Loops that go from equal seeds to equal seeds. -/
theorem loop {step step' : σ → Program F M (σ ⊕ α)}
    (hstep : ∀ s, (step s).Corresponds K Eq (step' s)) (seed : σ) :
    (Program.iterate step seed).Corresponds K Eq (.iterate step' seed) := by
  refine .iterate (I := Eq) ?_ rfl
  rintro s _ rfl
  refine (hstep s).mono ?_
  rintro r _ rfl
  cases r with
  | inl s => exact .inl rfl
  | inr a => exact .inr rfl

/-- Loops over a condition. -/
theorem whileTrue {condition condition' : Program F M Bool} {body body' : Program F M Unit}
    (hcondition : condition.Corresponds K Eq condition') (hbody : body.Corresponds K Eq body') :
    (Program.whileTrue condition body).Corresponds K Eq (Program.whileTrue condition' body') := by
  refine .loop (fun _ => .seq hcondition fun c => ?_) ()
  cases c with
  | true => exact .seq hbody fun _ => .pure rfl
  | false => exact .pure rfl

/-- Branches over one condition. -/
theorem ite {Q : α → β → Prop} {p q : Program F M α} {p' q' : Program F M β} (c : Prop)
    [Decidable c] (hp : p.Corresponds K Q p') (hq : q.Corresponds K Q q') :
    (if c then p else q).Corresponds K Q (if c then p' else q') := by
  split
  · exact hp
  · exact hq

end Program.Corresponds

namespace Program

/-- Whether a program is a single step, and not put together from others. -/
def IsStep : {α : Type} → Program F M α → Prop
  | _, .pure _ | _, .bind _ _ | _, .fail _ | _, .attempt _ | _, .iterate _ _ | _, .within _ _ =>
    False
  | _, _ => True

/-- Whether all single steps that a program is made of have a property. -/
def Each (P : {α : Type} → Program F M α → Prop) : {α : Type} → Program F M α → Prop
  | _, .pure _ | _, .fail _ => True
  | _, .bind p k => p.Each P ∧ ∀ a, (k a).Each P
  | _, .attempt p | _, .within _ p => p.Each P
  | _, .iterate step _ => ∀ s, (step s).Each P
  | _, p => P p

/-- Steps of a sort, each beside itself. -/
inductive Beside (P : {α : Type} → Program F M α → Prop) :
    {α β : Type} → (α → β → Prop) → Program F M α → Program F M β → Prop
  | intro {α : Type} {p : Program F M α} (hstep : p.IsStep) (hp : P p) : Beside P Eq p p

variable {P : {α : Type} → Program F M α → Prop} {K : Correspondence F M}

/-- A program corresponds to itself if each of its steps does. -/
theorem Each.corresponds (hfaults : ∀ e e', K.faults e e' ↔ e = e')
    (hscopes : ∀ s, K.scopes s s)
    (hsteps : ∀ {α : Type} {p : Program F M α}, p.IsStep → P p → K.steps Eq p p)
    {p : Program F M α} (hp : p.Each P) : p.Corresponds K Eq p := by
  induction p with
  | pure a => exact .pure rfl
  | bind p k ihp ihk => exact .seq (ihp hp.1) fun a => ihk a (hp.2 a)
  | fail e => exact .fail ((hfaults e e).mpr rfl)
  | attempt p ih => exact .caught (fun e e' => (hfaults e e').mp) (ih hp)
  | iterate step seed ih => exact .loop (fun s => ih s (hp s)) seed
  | within scope p ih => exact .within (hscopes scope) (ih hp)
  | _ => exact .step (hsteps trivial hp)

/-- One program of such steps, then another. -/
theorem Each.bind {p : Program F M α} {k : α → Program F M β} (hp : p.Each P)
    (hk : ∀ a, (k a).Each P) : (Program.bind p k).Each P :=
  And.intro hp hk

/-- One of two programs of such steps. -/
theorem Each.ite {p q : Program F M α} (c : Prop) [Decidable c] (hp : p.Each P) (hq : q.Each P) :
    (if c then p else q).Each P := by
  split
  · exact hp
  · exact hq

/-- A loop over a condition, whose steps are those of the condition and of the body. -/
theorem Each.whileTrue {condition : Program F M Bool} {body : Program F M Unit}
    (hcondition : condition.Each P) (hbody : body.Each P) :
    (Program.whileTrue condition body).Each P := by
  have hround : ∀ c : Bool, (if c = true then do
      body
      return .inl ()
    else
      return .inr () : Program F M (Unit ⊕ Unit)).Each P := fun c =>
    .ite _ (.bind hbody fun _ => trivial) trivial
  exact fun _ => .bind hcondition hround

/-- Every program is made of steps of any sort. -/
theorem each_true (p : Program F M α) : p.Each fun _ => True := by
  induction p with
  | bind p k ihp ihk => exact ⟨ihp, ihk⟩
  | attempt p ih => exact ih
  | iterate step seed ih => exact ih
  | within scope p ih => exact ih
  | _ => trivial

end Program

/-! ### Comparisons -/

/-- What two executions have in common: what programs may differ in, and what becomes of the worlds
that the two start from. -/
structure Comparison (F M : Type) extends Correspondence F M where
  /-- From a pair of worlds the two executions may lead to another one. A pair that leads to itself
  is one that they may start from. -/
  Leads : World F M → World F M → World F M → World F M → Prop
  /-- Whether nothing is said of the second execution if the first one runs out of fuel. -/
  lax : Prop := False
  /-- Whatever is led to may be started from. -/
  start : ∀ {w v w' v' : World F M}, Leads w v w' v' → Leads w' v' w' v'
  /-- One part after another leads where the two lead. -/
  trans : ∀ {w v w' v' w'' v'' : World F M}, Leads w v w' v' → Leads w' v' w'' v'' →
    Leads w v w'' v''
  /-- A scope may be entered. -/
  enter : ∀ {w v : World F M} {s s' : Scope F}, scopes s s' → Leads w v w v →
    Leads { w with settings := s.entry w.settings } { v with settings := s'.entry v.settings }
      { w with settings := s.entry w.settings } { v with settings := s'.entry v.settings }
  /-- What happens in a scope is part of what happens around it. -/
  leave : ∀ {w v w' v' : World F M} {s s' : Scope F}, scopes s s' → Leads w v w v →
    Leads { w with settings := s.entry w.settings } { v with settings := s'.entry v.settings }
      w' v' →
    Leads w v { w' with settings := w.settings } { v' with settings := v.settings }

/-- What a chain does at a state, with a character left: one link and then the rest, for as many
calls as there is fuel. -/
def Chain.goOn [Callable F] (enter : F → Handle → Execution F M (Value F)) (settings : Settings F)
    (h : Handle) : Nat → State F → Execution F M (List (Token F))
  | 0 => fun _ w => (none, w)
  | fuel + 1 => fun s => (link enter settings h s).bind (follow enter settings h fuel)

/-- With any amount of fuel a chain stops or goes on. -/
theorem Chain.follow_eq_proceed [Callable F] (enter : F → Handle → Execution F M (Value F))
    (settings : Settings F) (h : Handle) (fuel : Nat) :
    follow enter settings h fuel = proceed settings h (goOn enter settings h fuel) := by
  cases fuel <;> rfl

namespace Comparison

variable (C : Comparison F M) {l : Filter ι} {Q : α → β → Prop} {S : γ → δ → Prop}

/-- From a pair of worlds that may be started from almost all executions of a family come to one
outcome and one world. The first execution comes to a corresponding outcome and leads to a
corresponding world. -/
def Related (l : Filter ι) (Q : α → β → Prop) (x : Execution F M α)
    (Y : ι → Execution F M β) : Prop :=
  ∀ ⦃w v : World F M⦄, C.Leads w v w v →
    (C.lax ∧ (x w).1 = none) ∨
      ∃ o v', (∀ᶠ i in l, Y i v = (o, v')) ∧ Option.Rel (Results C.faults Q) (x w).1 o ∧
        C.Leads w v (x w).2 v'

/-- The same of a single execution. -/
abbrev Relates (Q : α → β → Prop) (x : Execution F M α) (y : Execution F M β) : Prop :=
  C.Related (⊤ : Filter Unit) Q x fun _ => y

/-- Whether almost all of a family of amounts of fuel are as much as a given one. They may be more
if nothing is said of an execution for which the fuel did not last. -/
def Covers (l : Filter ι) (n : Nat) (rounds : ι → Nat) : Prop :=
  (∀ᶠ i in l, rounds i = n) ∨ C.lax ∧ ∀ᶠ i in l, n ≤ rounds i

variable {C} {x : Execution F M α} {X : ι → Execution F M β} {n : Nat} {rounds : ι → Nat}

/-- What a single execution has to do. -/
theorem relates_iff {y : Execution F M β} :
    C.Relates Q x y ↔ ∀ ⦃w v : World F M⦄, C.Leads w v w v →
      (C.lax ∧ (x w).1 = none) ∨
        (Option.Rel (Results C.faults Q) (x w).1 (y v).1 ∧
          C.Leads w v (x w).2 (y v).2) := by
  refine forall_congr' fun w => forall_congr' fun v => imp_congr_right fun _ => ?_
  refine or_congr_right ?_
  constructor
  · rintro ⟨o, v', hy, houtcome, hleads⟩
    rw [show y v = (o, v') from Filter.eventually_top.mp hy ()]
    exact ⟨houtcome, hleads⟩
  · rintro ⟨houtcome, hleads⟩
    exact ⟨(y v).1, (y v).2, .of_forall fun _ => rfl, houtcome, hleads⟩

/-- If no fuel is needed the two executions can be compared as they are. -/
theorem related_of_forall {y : Execution F M β}
    (hxy : ∀ ⦃w v : World F M⦄, C.Leads w v w v →
      Option.Rel (Results C.faults Q) (x w).1 (y v).1 ∧ C.Leads w v (x w).2 (y v).2) :
    C.Related l Q x fun _ => y := by
  intro w v hwv
  obtain ⟨houtcome, hleads⟩ := hxy hwv
  exact .inr ⟨(y v).1, (y v).2, .of_forall fun _ => rfl, houtcome, hleads⟩

/-- A single step with a result. -/
theorem related_of_ok {a : World F M → α} {b : World F M → β} {f g : World F M → World F M}
    (hfg : ∀ ⦃w v : World F M⦄, C.Leads w v w v →
      Q (a w) (b v) ∧ C.Leads w v (f w) (g v)) :
    C.Related l Q (fun w => (some (.ok (a w)), f w)) fun _ v => (some (.ok (b v)), g v) :=
  related_of_forall fun _ _ hwv => ⟨.some (.ok (hfg hwv).1), (hfg hwv).2⟩

namespace Related

/-- Only almost all executions of the family count. -/
theorem congr {Y : ι → Execution F M β} (hx : C.Related l Q x X)
    (hXY : ∀ᶠ i in l, X i = Y i) : C.Related l Q x Y := by
  intro w v hwv
  rcases hx hwv with hnone | ⟨o, v', hX, houtcome, hleads⟩
  · exact .inl hnone
  · refine .inr ⟨o, v', ?_, houtcome, hleads⟩
    filter_upwards [hX, hXY] with i hi hsame
    rw [← hsame, hi]

/-- The results may be related more widely. -/
theorem mono {S : α → β → Prop} (hx : C.Related l Q x X) (hQS : ∀ a b, Q a b → S a b) :
    C.Related l S x X := by
  intro w v hwv
  rcases hx hwv with hnone | ⟨o, v', hX, houtcome, hleads⟩
  · exact .inl hnone
  · refine .inr ⟨o, v', hX, ?_, hleads⟩
    generalize (x w).1 = o₁ at houtcome
    cases houtcome with
    | none => exact .none
    | some hr => exact .some (hr.mono hQS)

/-- What all results of the first execution have may be used of related ones. -/
theorem and_of_ok {P : α → Prop} (hx : C.Related l Q x X)
    (hP : ∀ w a w', x w = (some (.ok a), w') → P a) :
    C.Related l (fun a b => Q a b ∧ P a) x X := by
  intro w v hwv
  rcases hx hwv with hnone | ⟨o, v', hX, houtcome, hleads⟩
  · exact .inl hnone
  · refine .inr ⟨o, v', hX, ?_, hleads⟩
    rcases hxw : x w with ⟨o₁, w'⟩
    rw [hxw] at houtcome
    cases houtcome with
    | none => exact .none
    | some hr =>
        cases hr with
        | error he => exact .some (.error he)
        | ok hab => exact .some (.ok ⟨hab, hP w _ w' hxw⟩)

/-- A family may be replaced by another one that runs through it. -/
theorem comp {κ : Type} {m : Filter κ} {φ : κ → ι} (hx : C.Related l Q x X)
    (hφ : Filter.Tendsto φ m l) : C.Related m Q x fun k => X (φ k) := by
  intro w v hwv
  rcases hx hwv with hnone | ⟨o, v', hX, houtcome, hleads⟩
  · exact .inl hnone
  · exact .inr ⟨o, v', hφ.eventually hX, houtcome, hleads⟩

/-- A result at once. -/
theorem pure {a : α} {b : β} (hab : Q a b) :
    C.Related l Q (Execution.pure a) fun _ => Execution.pure b :=
  related_of_ok fun _ _ hwv => ⟨hab, hwv⟩

/-- A fault at once. -/
theorem fail {e e' : Fault} (he : C.faults e e') :
    C.Related l Q (Execution.fail e) fun _ => Execution.fail e' :=
  related_of_forall fun _ _ hwv => ⟨.some (.error he), hwv⟩

/-- Both run out of fuel at once. -/
theorem exhausted : C.Related l Q (fun w : World F M => (none, w)) fun _ v => (none, v) :=
  related_of_forall fun _ _ hwv => ⟨.none, hwv⟩

/-- **One execution, then another** that depends on its result. -/
theorem bind {k : α → Execution F M γ} {K : ι → β → Execution F M δ} (hx : C.Related l Q x X)
    (hk : ∀ a b, Q a b → C.Related l S (k a) fun i => K i b) :
    C.Related l S (x.bind k) fun i => (X i).bind (K i) := by
  intro w v hwv
  rcases hxw : x w with ⟨o₁, w'⟩
  rcases hx hwv with ⟨hlax, hnone⟩ | ⟨o, v', hX, houtcome, hleads⟩
  · rw [hxw] at hnone
    obtain rfl : o₁ = none := hnone
    exact .inl ⟨hlax, by rw [Execution.bind_of_none hxw]⟩
  rw [hxw] at houtcome hleads
  -- Both end here, or both go on with related results.
  cases houtcome with
  | none =>
      rw [Execution.bind_of_none hxw]
      exact .inr ⟨none, v', hX.mono fun _ hi => Execution.bind_of_none hi _, .none, hleads⟩
  | some hr =>
      cases hr with
      | error he =>
          rw [Execution.bind_of_error hxw]
          exact .inr ⟨_, v', hX.mono fun _ hi => Execution.bind_of_error hi _,
            .some (.error he), hleads⟩
      | @ok a b hab =>
          rw [Execution.bind_of_ok hxw]
          rcases hk a b hab (C.start hleads) with hnone | ⟨o', v'', hK, houtcome', hleads'⟩
          · exact .inl hnone
          · refine .inr ⟨o', v'', ?_, houtcome', C.trans hleads hleads'⟩
            filter_upwards [hX, hK] with i hi hi'
            rw [Execution.bind_of_ok hi, hi']

/-- Executions that come after a step of the two worlds. -/
theorem after {f g : World F M → World F M}
    (hfg : ∀ ⦃w v : World F M⦄, C.Leads w v w v → C.Leads w v (f w) (g v))
    (hx : C.Related l Q x X) : C.Related l Q (fun w => x (f w)) fun i v => X i (g v) := by
  intro w v hwv
  rcases hx (C.start (hfg hwv)) with hnone | ⟨o, v', hX, houtcome, hleads⟩
  · exact .inl hnone
  · exact .inr ⟨o, v', hX, houtcome, C.trans (hfg hwv) hleads⟩

/-- **A fault as a value.** -/
theorem attempt (hx : C.Related l Q x X) :
    C.Related l (Results C.faults Q) x.attempt fun i => (X i).attempt := by
  intro w v hwv
  rcases hxw : x w with ⟨o₁, w'⟩
  rcases hx hwv with ⟨hlax, hnone⟩ | ⟨o, v', hX, houtcome, hleads⟩
  · rw [hxw] at hnone
    obtain rfl : o₁ = none := hnone
    exact .inl ⟨hlax, by simp only [Execution.attempt, hxw]⟩
  rw [hxw] at houtcome hleads
  -- Both sides are exhausted, or both have a result, and a fault that is caught is a result.
  cases houtcome with
  | none =>
      simp only [Execution.attempt, hxw]
      exact .inr ⟨none, v', hX.mono fun i hi => by simp only [hi], .none, hleads⟩
  | @some r r' hr =>
      simp only [Execution.attempt, hxw]
      exact .inr ⟨some (.ok r'), v', hX.mono fun i hi => by simp only [hi], .some (.ok hr), hleads⟩

/-- **A part in a scope of its own.** -/
theorem within {s s' : Scope F} (hscope : C.scopes s s') (hx : C.Related l Q x X) :
    C.Related l Q (x.within s) fun i => (X i).within s' := by
  intro w v hwv
  rcases hx (C.enter hscope hwv) with hnone | ⟨o, v', hX, houtcome, hleads⟩
  · exact .inl hnone
  · refine .inr ⟨o, { v' with settings := v.settings }, ?_, houtcome, C.leave hscope hwv hleads⟩
    exact hX.mono fun i hi => by simp only [Execution.within, hi]

end Related

/-- Both may have the same amount of fuel. -/
theorem Covers.same : C.Covers l n fun _ => n := .inl (.of_forall fun _ => rfl)

/-- With one round more at hand there is a round before the last ones. -/
theorem Covers.pred (hrounds : C.Covers l (n + 1) rounds) :
    (∀ᶠ i in l, rounds i - 1 + 1 = rounds i) ∧ C.Covers l n fun i => rounds i - 1 := by
  rcases hrounds with hrounds | ⟨hlax, hrounds⟩
  · exact ⟨hrounds.mono fun i hi => by omega, .inl (hrounds.mono fun i hi => by simp [hi])⟩
  · exact ⟨hrounds.mono fun i hi => by omega,
      .inr ⟨hlax, hrounds.mono fun i hi => Nat.le_sub_one_of_lt hi⟩⟩

/-- Without fuel on the left, the right has none either, or nothing is said of it. -/
theorem Covers.exhausted (hrounds : C.Covers l 0 rounds) {Y : Nat → ι → Execution F M β}
    (hY : ∀ i, Y 0 i = fun v => (none, v)) :
    C.Related l Q (fun w : World F M => (none, w)) fun i => Y (rounds i) i := by
  rcases hrounds with hrounds | ⟨hlax, -⟩
  · refine Related.exhausted.congr ?_
    exact hrounds.mono fun i hi => by rw [hi, hY]
  · exact fun _ _ _ => .inl ⟨hlax, rfl⟩

/-- **A step repeated until it yields a result.** -/
theorem Related.iterate {I : σ → τ → Prop} {step : σ → Execution F M (σ ⊕ α)}
    {step' : ι → τ → Execution F M (τ ⊕ β)}
    (hstep : ∀ s s', I s s' → C.Related l (Sum.LiftRel I Q) (step s) fun i => step' i s')
    (hrounds : C.Covers l n rounds) {s : σ} {s' : τ} (hs : I s s') :
    C.Related l Q (Execution.iterate step n s)
      fun i => Execution.iterate (step' i) (rounds i) s' := by
  -- Induction on the rounds of the left side. The right side has at least as many, eventually,
  -- and one round is spent on both.
  induction n generalizing rounds s s' with
  | zero =>
      exact hrounds.exhausted (Y := fun m i => Execution.iterate (step' i) m s') fun _ => rfl
  | succ n ih =>
      obtain ⟨hsucc, hrest⟩ := hrounds.pred
      rw [Execution.iterate_succ]
      refine ((hstep s s' hs).bind (K := fun i => Sum.elim
        (Execution.iterate (step' i) (rounds i - 1)) Execution.pure) ?_).congr ?_
      · intro r r' hr
        cases hr with
        | inl hs => exact ih hrest hs
        | inr hab => exact .pure hab
      · exact hsucc.mono fun i hi => by rw [← Execution.iterate_succ, hi]

/-! ### Chains -/

/-- A value that is checked twice passes or fails twice. -/
theorem results_asState {faults : Fault → Fault → Prop} (hfaults : ∀ e, faults e e)
    (source : String) (u : Value F) :
    Results faults (Option.Rel Eq) (u.asState source) (u.asState source) :=
  .refl hfaults (fun t => by cases t <;> constructor; rfl) _

/-- Equal states, or the ends of two chains. -/
theorem eq_of_rel {t t' : Option (State F)} (ht : Option.Rel Eq t t') : t = t' := by
  cases ht with
  | none => rfl
  | some hs => rw [hs]

variable [Callable F]

/-- What two chains over the tokenizers of `h` and `k` have in common. They stop at the same time
and report alike; the values that they go on with are checked alike. -/
structure Chains (C : Comparison F M) (h k : Handle) (settings : Settings F → Settings F → Prop)
    (states : State F → State F → Prop) (values : Value F → Value F → Prop)
    (tokens : List (Token F) → List (Token F) → Prop) : Prop where
  /-- The settings that the chains find when they begin. -/
  found : ∀ ⦃w v : World F M⦄, C.Leads w v w v → settings w.settings v.settings
  hasMore_eq : ∀ ⦃w v : World F M⦄, C.Leads w v w v →
    (w.get h).hasMore = (v.get k).hasMore
  handed : ∀ ⦃w v : World F M⦄, C.Leads w v w v → tokens (w.get h).tokens (v.get k).tokens
  stop : ∀ ⦃w v : World F M⦄ {g g' : Settings F}, settings g g' → C.Leads w v w v →
    C.Leads w v (Chain.stop g h w).2 (Chain.stop g' k v).2
  arrive : ∀ ⦃w v : World F M⦄ {g g' : Settings F} {s s' : State F} {t t' : Option (State F)},
    settings g g' → states s s' → Option.Rel states t t' → C.Leads w v w v →
    C.Leads w v (Chain.arrive g h s t w) (Chain.arrive g' k s' t' v)
  asState : ∀ {u u' : Value F} {s s' : State F}, values u u' → states s s' →
    Results C.faults (Option.Rel states) (u.asState s.name) (u'.asState s'.name)
  asState_initial : ∀ {u u' : Value F}, values u u' →
    Results C.faults (Option.Rel states) (u.asState Chain.initialName)
      (u'.asState Chain.initialName)

namespace Chains

variable {h k : Handle} {settings : Settings F → Settings F → Prop}
  {states : State F → State F → Prop} {values : Value F → Value F → Prop}
  {tokens : List (Token F) → List (Token F) → Prop} {g g' : Settings F}

/-- Where states, values and tokens are the same on both sides, what is left to know is that the
chains find the same and that their reports are led along. -/
theorem of_eq (hfaults : ∀ e, C.faults e e)
    (found : ∀ ⦃w v : World F M⦄, C.Leads w v w v → settings w.settings v.settings)
    (hasMore_eq : ∀ ⦃w v : World F M⦄, C.Leads w v w v → (w.get h).hasMore = (v.get k).hasMore)
    (tokens_eq : ∀ ⦃w v : World F M⦄, C.Leads w v w v → (w.get h).tokens = (v.get k).tokens)
    (stop : ∀ ⦃w v : World F M⦄ {g g' : Settings F}, settings g g' → C.Leads w v w v →
      C.Leads w v (Chain.stop g h w).2 (Chain.stop g' k v).2)
    (arrive : ∀ ⦃w v : World F M⦄ {g g' : Settings F} (s : State F) (t : Option (State F)),
      settings g g' → C.Leads w v w v →
      C.Leads w v (Chain.arrive g h s t w) (Chain.arrive g' k s t v)) :
    C.Chains h k settings Eq Eq Eq where
  found := found
  hasMore_eq := hasMore_eq
  handed := tokens_eq
  stop := stop
  arrive := by
    rintro w v g g' s _ t t' hg rfl ht hwv
    obtain rfl := eq_of_rel ht
    exact arrive s t hg hwv
  asState := by
    rintro u _ s _ rfl rfl
    exact results_asState hfaults _ _
  asState_initial := by
    rintro u _ rfl
    exact results_asState hfaults _ _

/-- The ends of two chains. -/
theorem related_stop (hC : C.Chains h k settings states values tokens) (hg : settings g g') :
    C.Related l tokens (Chain.stop g h) fun _ => Chain.stop g' k :=
  related_of_forall fun _ _ hwv => ⟨.some (.ok (hC.handed hwv)), hC.stop hg hwv⟩

/-- Chains at related states, or at their ends, with related ways to go on. -/
theorem related_proceed (hC : C.Chains h k settings states values tokens) (hg : settings g g')
    {onward : State F → Execution F M (List (Token F))}
    {onward' : ι → State F → Execution F M (List (Token F))}
    (honward : ∀ s s', states s s' → C.Related l tokens (onward s) fun i => onward' i s')
    {s s' : Option (State F)} (hs : Option.Rel states s s') :
    C.Related l tokens (Chain.proceed g h onward s) fun i => Chain.proceed g' k (onward' i) s' := by
  cases hs with
  | none => exact hC.related_stop hg
  | @some s s' hs =>
      intro w v hwv
      have hmore := hC.hasMore_eq hwv
      simp only [Chain.proceed, hmore]
      cases (v.get k).hasMore with
      | true => exact honward s s' hs hwv
      | false => exact hC.related_stop (l := l) hg hwv

/-- What becomes of related values that related states hand back. -/
theorem related_receive (hC : C.Chains h k settings states values tokens) (hg : settings g g')
    {s s' : State F} (hs : states s s') {u u' : Value F} (hu : values u u') :
    C.Related l (Option.Rel states) (Chain.receive (M := M) g h s u)
      fun _ => Chain.receive g' k s' u' := by
  refine related_of_forall fun w v hwv => ?_
  have hstate := hC.asState hu hs
  unfold Chain.receive
  generalize u.asState s.name = r at hstate
  generalize u'.asState s'.name = r' at hstate
  cases hstate with
  | error he => exact ⟨.some (.error he), hwv⟩
  | ok ht => exact ⟨.some (.ok ht), hC.arrive hg hs ht hwv⟩

variable {enter : F → Handle → Execution F M (Value F)}
  {enter' : ι → F → Handle → Execution F M (Value F)}

/-- Links of chains, if the states are called alike. -/
theorem related_link (hC : C.Chains h k settings states values tokens) (hg : settings g g')
    (hcall : ∀ s s', states s s' →
      C.Related l values (s.call enter h) fun i => s'.call (enter' i) k)
    {s s' : State F} (hs : states s s') :
    C.Related l (Option.Rel states) (Chain.link enter g h s)
      fun i => Chain.link (enter' i) g' k s' :=
  (hcall s s' hs).bind fun _ _ hu => hC.related_receive hg hs hu

/-- **Chains from related states on.** By induction on the fuel: one link, and then the rest. -/
theorem related_follow (hC : C.Chains h k settings states values tokens) (hg : settings g g')
    (hcall : ∀ s s', states s s' →
      C.Related l values (s.call enter h) fun i => s'.call (enter' i) k)
    (hrounds : C.Covers l n rounds) {s s' : Option (State F)} (hs : Option.Rel states s s') :
    C.Related l tokens (Chain.follow enter g h n s)
      fun i => Chain.follow (enter' i) g' k (rounds i) s' := by
  induction n generalizing rounds s s' with
  | zero =>
      -- Without fuel all that a chain can do is stop, and that takes none on the other side.
      simp only [Chain.follow_eq_proceed]
      refine hC.related_proceed hg (fun _ s' _ => ?_) hs
      exact hrounds.exhausted (Y := fun m i => Chain.goOn (enter' i) g' k m s') fun _ => rfl
  | succ n ih =>
      obtain ⟨hsucc, hrest⟩ := hrounds.pred
      simp only [Chain.follow_eq_proceed]
      refine hC.related_proceed hg (fun s s' hs => ?_) hs
      have hlink := (hC.related_link hg hcall hs).bind fun _ _ ht => ih hrest ht
      exact hlink.congr (hsucc.mono fun i hi => by rw [← hi]; rfl)

/-- **Runs from related values on.** -/
theorem run (hC : C.Chains h k settings states values tokens)
    (hcall : ∀ s s', states s s' →
      C.Related l values (s.call enter h) fun i => s'.call (enter' i) k)
    (hrounds : C.Covers l n rounds) {u u' : Value F} (hu : values u u') :
    C.Related l tokens (Chain.run enter n h u)
      fun i => Chain.run (enter' i) (rounds i) k u' := by
  intro w v hwv
  have hstate := hC.asState_initial hu
  unfold Chain.run
  generalize u.asState Chain.initialName = r at hstate
  generalize u'.asState Chain.initialName = r' at hstate
  cases hstate with
  | error he => exact Related.fail (l := l) he hwv
  | ok hs => exact hC.related_follow (hC.found hwv) hcall hrounds hs hwv

/-- Runs that go through the same states, if the callables are called alike. -/
theorem run_of_eq (hC : C.Chains h k settings Eq values tokens)
    (hcall : ∀ f, C.Related l values (enter f h) fun i => enter' i f k)
    (hrounds : C.Covers l n rounds) {u u' : Value F} (hu : values u u') :
    C.Related l tokens (Chain.run enter n h u)
      fun i => Chain.run (enter' i) (rounds i) k u' := by
  refine hC.run ?_ hrounds hu
  rintro s _ rfl
  simp only [State.call_eq]
  exact hcall s.callee

end Chains

end Comparison

/-! ### Programs and machines -/

namespace Program.Corresponds

variable [Callable F] {C : Comparison F M} {l : Filter ι} {Q : α → β → Prop} {n : Nat}
  {rounds : ι → Nat} {enter : F → Handle → Execution F M (Value F)}
  {enter' : ι → F → Handle → Execution F M (Value F)}

/-- **Corresponding programs**, if their steps are related. -/
theorem exec
    (hsteps : ∀ {α β : Type} {Q : α → β → Prop} {p : Program F M α} {q : Program F M β},
      C.steps Q p q → C.Related l Q (p.exec enter n) fun i => q.exec (enter' i) (rounds i))
    (hrounds : C.Covers l n rounds) {p : Program F M α} {q : Program F M β}
    (hpq : p.Corresponds C.toCorrespondence Q q) :
    C.Related l Q (p.exec enter n) fun i => q.exec (enter' i) (rounds i) := by
  induction hpq with
  | step hpq => exact hsteps hpq
  | pure hab => exact .pure hab
  | bind _ _ ihp ihk => exact ihp.bind ihk
  | mono _ hQS ih => exact ih.mono hQS
  | fail he => exact .fail he
  | attempt _ ih => exact ih.attempt
  | iterate _ hseed ih => exact .iterate ih hrounds hseed
  | within hscope _ ih => exact ih.within hscope

end Program.Corresponds

namespace Comparison

variable [Callable F]

/-- What has to be known of single steps for programs on two machines to be compared. `calls` says
which calls correspond. -/
structure Steps (C : Comparison F M) (l : Filter ι) (calls : F → Handle → F → Handle → Prop)
    (values : Value F → Value F → Prop) : Prop where
  /-- Corresponding calls may be noted. -/
  entered : ∀ {f g : F} {h k : Handle} ⦃w v : World F M⦄, calls f h g k → C.Leads w v w v →
    C.Leads w v (w.note (.entered f h (w.get h))) (v.note (.entered g k (v.get k)))
  /-- Corresponding steps are related, if corresponding calls are. -/
  exec : ∀ {enter : F → Handle → Execution F M (Value F)}
    {enter' : ι → F → Handle → Execution F M (Value F)} {n : Nat} {rounds : ι → Nat},
    (∀ f h g k, calls f h g k → C.Related l values (enter f h) fun i => enter' i g k) →
    C.Covers l n rounds →
    ∀ {α β : Type} {Q : α → β → Prop} {p : Program F M α} {q : Program F M β},
      C.steps Q p q → C.Related l Q (p.exec enter n) fun i => q.exec (enter' i) (rounds i)

namespace Steps

variable {C : Comparison F M} {l : Filter ι} {calls : F → Handle → F → Handle → Prop}
  {values : Value F → Value F → Prop} {machine machine' : Machine F M} {rounds : ι → Nat} {n : Nat}

/-- **Calls on two machines** whose programs correspond. By induction on the fuel: the programs are
executed with one unit less. -/
theorem enter (hC : C.Steps l calls values)
    (hmachine : ∀ f h g k, calls f h g k →
      (machine f h).Corresponds C.toCorrespondence values (machine' g k))
    (hrounds : C.Covers l n rounds) {f g : F} {h k : Handle} (hcall : calls f h g k) :
    C.Related l values (machine.enter n f h) fun i => machine'.enter (rounds i) g k := by
  -- Induction on the nesting of the calls: what the body may call is entered with one unit less
  -- on both sides.
  induction n generalizing rounds f g h k with
  | zero =>
      exact hrounds.exhausted (Y := fun m _ => machine'.enter m g k) fun _ => rfl
  | succ n ih =>
      obtain ⟨hsucc, hrest⟩ := hrounds.pred
      have hbody : C.Related l values ((machine f h).exec (machine.enter n) n)
          fun i => (machine' g k).exec (machine'.enter (rounds i - 1)) (rounds i - 1) :=
        (hmachine f h g k hcall).exec (hC.exec (fun _ _ _ _ hcall => ih hrest hcall) hrest) hrest
      refine (hbody.after fun _ _ hwv => hC.entered hcall hwv).congr ?_
      exact hsucc.mono fun i hi => by rw [← hi]; rfl

/-- **Corresponding programs on two machines** of corresponding programs. -/
theorem machine_exec (hC : C.Steps l calls values)
    (hmachine : ∀ f h g k, calls f h g k →
      (machine f h).Corresponds C.toCorrespondence values (machine' g k))
    (hrounds : C.Covers l n rounds) {Q : α → β → Prop} {p : Program F M α} {q : Program F M β}
    (hpq : p.Corresponds C.toCorrespondence Q q) :
    C.Related l Q (machine.exec n p) fun i => machine'.exec (rounds i) q :=
  hpq.exec (hC.exec (fun _ _ _ _ hcall => hC.enter hmachine hrounds hcall) hrounds) hrounds

end Steps

end Comparison

/-! ### One execution -/

/-- Worlds that come one after the other, such as those that an execution goes through. To put other
settings in force is one way to go on. -/
structure World.IsCourse (R : World F M → World F M → Prop) : Prop where
  refl : ∀ w, R w w
  trans : ∀ {u v w}, R u v → R v w → R u w
  configured : ∀ w s, R w { w with settings := s }

namespace Comparison

variable {R : World F M → World F M → Prop} {P : {α : Type} → Program F M α → Prop}

/-- What an execution does is compared with what it does, so all that is said is which worlds it
leads to. The steps of programs are of one sort. -/
def along (hR : World.IsCourse R) (P : {α : Type} → Program F M α → Prop) : Comparison F M where
  steps := Program.Beside P
  Leads w v w' v' := w = v ∧ w' = v' ∧ R w w'
  start := fun ⟨_, heq, _⟩ => ⟨heq, heq, hR.refl _⟩
  trans := fun ⟨heq, _, hpq⟩ ⟨_, heq', hqr⟩ => ⟨heq, heq', hR.trans hpq hqr⟩
  enter := by
    rintro w _ s _ rfl ⟨rfl, -, -⟩
    exact ⟨rfl, rfl, hR.refl _⟩
  leave := by
    rintro w _ x _ s _ rfl ⟨rfl, -, -⟩ ⟨-, rfl, hx⟩
    exact ⟨rfl, rfl, hR.trans (hR.configured w _) (hR.trans hx (hR.configured x _))⟩

variable {hR : World.IsCourse R} {l : Filter ι}

/-- Beside itself an execution comes to the same outcome. -/
theorem along_related {x : Execution F M α} (hx : ∀ w, R w (x w).2) :
    (along hR P).Related l Eq x fun _ => x := by
  refine related_of_forall ?_
  rintro w _ ⟨rfl, -, -⟩
  exact ⟨Results.outcome_refl (fun _ => rfl) _, rfl, rfl, hx w⟩

/-- All that is said is which worlds the execution leads to. -/
theorem along_relates_iff {x : Execution F M α} :
    (along hR P).Relates Eq x x ↔ ∀ w, R w (x w).2 := by
  refine ⟨fun hx w => ?_, along_related⟩
  rcases relates_iff.mp hx (w := w) (v := w) ⟨rfl, rfl, hR.refl w⟩ with ⟨hlax, -⟩ | ⟨-, hleads⟩
  · exact hlax.elim
  · exact hleads.2.2

/-- A program leads along a course if its steps do. -/
theorem along_exec [Callable F] (hR : World.IsCourse R)
    {enter : F → Handle → Execution F M (Value F)} {n : Nat}
    (hsteps : ∀ {α : Type} {p : Program F M α}, p.IsStep → P p → ∀ w, R w (p.exec enter n w).2)
    {p : Program F M α} (hp : p.Each P) (w : World F M) : R w (p.exec enter n w).2 := by
  have hself : p.Corresponds (along hR P).toCorrespondence Eq p :=
    hp.corresponds (fun _ _ => Iff.rfl) (fun _ => rfl) fun hstep hp =>
      Program.Beside.intro hstep hp
  refine along_relates_iff.mp (hself.exec (fun hpq => ?_) .same) w
  cases hpq with
  | intro hstep hp => exact along_related (hsteps hstep hp)

/-- A chain leads along a course if what it reports and the calls do. -/
theorem along_chains [Callable F] (hstop : ∀ g h w, R w (Chain.stop g h w).2)
    (harrive : ∀ g h s t w, R w (Chain.arrive g h s t w)) (h : Handle) :
    (along hR P).Chains h h Eq Eq Eq Eq := by
  -- Left and right are one world, so all but the course of the two steps is read off it.
  refine .of_eq (fun _ => rfl) ?_ ?_ ?_ ?_ ?_
  · rintro w _ ⟨rfl, -, -⟩
    rfl
  · rintro w _ ⟨rfl, -, -⟩
    rfl
  · rintro w _ ⟨rfl, -, -⟩
    rfl
  · rintro w _ g _ rfl ⟨rfl, -, -⟩
    exact ⟨rfl, rfl, hstop g h w⟩
  · rintro w _ g _ s t rfl ⟨rfl, -, -⟩
    exact ⟨rfl, rfl, harrive g h s t w⟩

end Comparison

end LexChain
