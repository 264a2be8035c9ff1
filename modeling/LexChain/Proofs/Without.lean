import LexChain.Proofs.Growth

/-!
# `LexChain.Proofs.Without`: events that do not happen

An execution may go by steps of which none adds an event of some sort:
`Execution.Without` says so. It is a law about one execution, as `Execution.Steps` is, so
that it passes from the parts of a program to the whole is a case of `Comparison.along`.

One sort are the reports that a chain makes, of transitions and of lost text. A program
that drives no chain and calls nothing (`Program.Unchained`) goes without them
(`Program.Unchained.without_ofChain`). In particular it never warns.
-/

set_option autoImplicit false

namespace LexChain

variable {F M α β σ : Type} {P Q : Event F → Prop}

/-! ### Events of a sort -/

/-- Whether an event is a report that a chain made, of a transition or of a loss. -/
def Event.OfChain : Event F → Prop
  | reported _ record => record.channel = .state
  | _ => False

/-- Whether an event is a warning on account of any tokenizer. -/
def Event.IsWarning (e : Event F) : Prop := ∃ h, e.Warns h

/-- Only a chain warns. -/
theorem Event.IsWarning.ofChain {e : Event F} (he : e.IsWarning) : e.OfChain := by
  obtain ⟨h, he⟩ := he
  cases e with
  | reported k record =>
      obtain ⟨_, hlevel⟩ := he
      cases record with
      | dropped text start stop => rfl
      | emitted e => cases hlevel
      | moved source target position => cases hlevel
  | _ => exact he.elim

namespace World

/-- Any number of steps, none of which adds an event of the sort `P`. -/
def ReachesWithout (P : Event F → Prop) : World F M → World F M → Prop :=
  Relation.ReflTransGen fun w v => Step w v ∧ ∀ e ∈ v.since w, ¬P e

/-- No step at all. -/
theorem ReachesWithout.refl (w : World F M) : w.ReachesWithout P w := Relation.ReflTransGen.refl

/-- Some steps and then others. -/
theorem ReachesWithout.trans {u v w : World F M} (huv : u.ReachesWithout P v)
    (hvw : v.ReachesWithout P w) : u.ReachesWithout P w :=
  Relation.ReflTransGen.trans huv hvw

/-- There are no events of a narrower sort either. -/
theorem ReachesWithout.mono {w v : World F M} (hPQ : ∀ e, Q e → P e)
    (hwv : w.ReachesWithout P v) : w.ReachesWithout Q v :=
  Relation.ReflTransGen.mono (fun _ _ hs => ⟨hs.1, fun e he hq => hs.2 e he (hPQ e hq)⟩) _ _ hwv

/-- Steps without an event are steps. -/
theorem ReachesWithout.reaches {w v : World F M} (hwv : w.ReachesWithout P v) : w.Reaches v :=
  Relation.ReflTransGen.mono (fun _ _ hs => hs.1) _ _ hwv

/-- On the way no such event happened either. -/
theorem ReachesWithout.not_of_mem {w v : World F M} (hwv : w.ReachesWithout P v) :
    ∀ e ∈ v.since w, ¬P e := by
  induction hwv with
  | refl => simp
  | tail hu hs ih =>
      intro e he
      rw [Reaches.since_append (ReachesWithout.reaches hu) (.single hs.1)] at he
      rcases List.mem_append.mp he with he | he
      · exact ih e he
      · exact hs.2 e he

/-- A single step, with the events that it adds. -/
theorem reachesWithout_of_history_eq {w v : World F M} {events : List (Event F)}
    (hs : Step w v) (hv : v.history = w.history ++ events) (hevents : ∀ e ∈ events, ¬P e) :
    w.ReachesWithout P v := by
  refine .single ⟨hs, ?_⟩
  rwa [since_of_history_eq hv]

/-- A command reports tokens only. -/
theorem reachesWithout_tell (w : World F M) (h : Handle) (c : Command F) :
    w.ReachesWithout Event.OfChain (w.tell h c).2 := by
  refine reachesWithout_of_history_eq (.told w h c) (w.history_tell h c) ?_
  rw [(c.precedes_apply _).reportsSince_eq]
  intro e he
  rcases List.mem_cons.mp he with rfl | he
  · exact id
  · obtain ⟨record, hrecord, rfl⟩ := List.mem_map.mp he
    unfold Tokenizer.recordsOf at hrecord
    split at hrecord
    · obtain ⟨emission, _, rfl⟩ := List.mem_map.mp hrecord
      simp [Event.OfChain, Record.channel]
    · simp at hrecord

/-- A step that adds no event at all. -/
theorem reachesWithout_of_history_same {w v : World F M} (hs : Step w v)
    (hv : v.history = w.history) : w.ReachesWithout P v :=
  reachesWithout_of_history_eq hs (hv.trans (List.append_nil _).symm) (by simp)

/-- Such steps are a course, as other settings are no event. -/
theorem isCourse_reachesWithout :
    IsCourse (ReachesWithout P : World F M → World F M → Prop) where
  refl := .refl
  trans := .trans
  configured w s := reachesWithout_of_history_same (.configured w s) rfl

end World

/-! ### Executions without them -/

/-- Whatever its outcome, the execution leaves a world that is reached without an event
of the sort `P`. -/
def Execution.Without (P : Event F → Prop) (x : Execution F M α) : Prop :=
  ∀ w : World F M, w.ReachesWithout P (x w).2

namespace Execution

/-- To do without events of a sort is a law about one execution. -/
theorem without_iff {x : Execution F M α} :
    (Comparison.along (World.isCourse_reachesWithout (P := P)) fun _ => True).Relates Eq x x ↔
      x.Without P :=
  Comparison.along_relates_iff

/-- One execution after the other does without. -/
theorem Without.bind {x : Execution F M α} {k : α → Execution F M β} (hx : x.Without P)
    (hk : ∀ a, (k a).Without P) : (x.bind k).Without P := by
  refine without_iff.mp ((without_iff.mpr hx).bind ?_)
  rintro a _ rfl
  exact without_iff.mpr (hk a)

end Execution

/-- The report of a transition is no warning. -/
theorem Chain.without_receive [Callable F] (settings : Settings F) (h : Handle) (s : State F)
    (v : Value F) :
    (receive settings h s v : Execution F M (Option (State F))).Without Event.IsWarning := by
  intro w
  unfold receive arrive
  cases v.asState s.name with
  | error e => exact .refl w
  | ok target =>
      dsimp only
      split
      · refine World.reachesWithout_of_history_eq (.reported w h rfl) (w.history_report h _) ?_
        simp [Event.IsWarning, Event.Warns, Record.level]
      · exact .refl w

/-! ### Programs that drive no chain -/

/-- Whether a step drives no chain and calls nothing. -/
def Program.StartsNothing : {α : Type} → Program F M α → Prop
  | _, .run _ _ | _, .call _ _ => False
  | _, _ => True

/-- A program that drives no chain and calls nothing, not even in a part of it. -/
abbrev Program.Unchained (p : Program F M α) : Prop := p.Each Program.StartsNothing

/-- **A program that drives no chain makes no report of a chain's**, whatever calls
would do. -/
theorem Program.Unchained.without_ofChain [Callable F]
    {enter : F → Handle → Execution F M (Value F)} {fuel : Nat} {p : Program F M α}
    (hp : p.Unchained) : (p.exec enter fuel).Without Event.OfChain := by
  refine Comparison.along_exec World.isCourse_reachesWithout ?_ hp
  intro β p hstep hp w
  have hasked : ∀ (h : Handle) (q : Query), w.ReachesWithout Event.OfChain (w.ask h q).2 := by
    intro h q
    refine World.reachesWithout_of_history_eq (.asked w h q) (w.history_ask h q) ?_
    simp [Event.OfChain]
  cases p with
  | create source =>
      refine World.reachesWithout_of_history_eq (.created w source) (w.history_create source) ?_
      simp [Event.OfChain]
  | ask h q => exact hasked h q
  | tell h c => exact w.reachesWithout_tell h c
  | run h initial => exact hp.elim
  | call f h => exact hp.elim
  | hold h =>
      -- A list is taken by a question, and then kept.
      exact (hasked h .tokens).trans
        (World.reachesWithout_of_history_same (.listed _ rfl) rfl)
  | held k => exact .refl w
  | clear k =>
      exact World.reachesWithout_of_history_same (.listed w (w.shelf.toList_clear k)) rfl
  | settings => exact .refl w
  | configure s => exact World.reachesWithout_of_history_same (.configured w s) rfl
  | memory => exact .refl w
  | remember m => exact World.reachesWithout_of_history_same (.remembered w m) rfl
  | _ => exact hstep.elim

/-- A callable whose program drives no chain makes no such report when it is called. -/
theorem Machine.without_enter [Callable F] {machine : Machine F M} {f : F} {h : Handle}
    (hf : (machine f h).Unchained) (fuel : Nat) :
    (machine.enter fuel f h).Without Event.OfChain := by
  intro w
  cases fuel with
  | zero => exact .refl w
  | succ fuel =>
      have hentered : w.ReachesWithout Event.OfChain (w.note (.entered f h (w.get h))) :=
        World.reachesWithout_of_history_eq (.entered w f h) (w.history_note _)
          (by simp [Event.OfChain])
      exact hentered.trans (hf.without_ofChain _)

end LexChain
