import LexChain.Proofs.Comparison
import Mathlib.Logic.Relation

/-!
# `LexChain.Proofs.Steps`: what an execution does step by step

An execution changes the world in steps of eight kinds, which `World.Step` lists:
a tokenizer is created, a callable entered, a question asked, a command given, a
transition or a loss of text reported, a list of tokens taken or emptied, the
settings replaced, or the memory.
`Machine.exec_reaches` says that every execution is a sequence of such steps,
whatever the program and the machine are, and whether it ends with a result,
with a fault, or because the fuel did not last. So a law that each of the steps
keeps holds throughout every execution.

Two such laws are here already: what happened stays on record, and the history only
grows (`World.Reaches.history_eq`); and a tokenizer keeps its source
(`World.Reaches.source_eq`). The second one rests on what a step does to one tokenizer,
which is nothing, or what a single command does (`World.Step.get_cases`).
-/

set_option autoImplicit false

namespace LexChain

variable {F M α β σ : Type}

/-- Whether an event is none that would change a tokenizer that stands as given. -/
def Event.Spares (t : Tokenizer F) : Event F → Prop
  | entered _ _ u | asked _ _ u => u = t
  | reported _ record => record.channel = .state
  | created _ _ | told _ _ _ => False

namespace World

/-- A step of an execution. -/
inductive Step : World F M → World F M → Prop
  | created (w : World F M) (source : Text) : Step w (w.create source).2
  | entered (w : World F M) (f : F) (h : Handle) : Step w (w.note (.entered f h (w.get h)))
  | asked (w : World F M) (h : Handle) (q : Query) : Step w (w.ask h q).2
  | told (w : World F M) (h : Handle) (c : Command F) : Step w (w.tell h c).2
  /-- A chain reports. Emitted tokens are reported by the commands. -/
  | reported (w : World F M) (h : Handle) {record : Record F}
      (hrecord : record.channel = .state) : Step w (w.report h record)
  /-- Lists of tokens are taken or emptied, and no tokenizer changes. -/
  | listed (w : World F M) {shelf : Shelf F} (hshelf : shelf.toList = w.shelf.toList) :
      Step w { w with shelf }
  | configured (w : World F M) (s : Settings F) : Step w { w with settings := s }
  | remembered (w : World F M) (m : M) : Step w { w with memory := m }

/-- Any number of steps. -/
abbrev Reaches : World F M → World F M → Prop := Relation.ReflTransGen Step

/-! ### The history grows -/

/-- A step adds to the history. -/
theorem Step.history_eq {w v : World F M} (hs : Step w v) :
    ∃ events, v.history = w.history ++ events := by
  cases hs with
  | created source => exact ⟨_, w.history_create source⟩
  | entered f h => exact ⟨_, w.history_note _⟩
  | asked h q => exact ⟨_, w.history_ask h q⟩
  | told h c => exact ⟨_, w.history_tell h c⟩
  | reported h hrecord => exact ⟨_, w.history_report h _⟩
  | listed hshelf => exact ⟨[], (List.append_nil _).symm⟩
  | configured s => exact ⟨[], (List.append_nil _).symm⟩
  | remembered m => exact ⟨[], (List.append_nil _).symm⟩

/-- What happened up to a world comes first in the history of every later one. -/
theorem Reaches.history_eq {w v : World F M} (hr : w.Reaches v) :
    v.history = w.history ++ v.since w := by
  -- It is enough that there are such events: they are then what `since` drops to.
  have hex : ∃ events, v.history = w.history ++ events := by
    induction hr with
    | refl => exact ⟨[], (List.append_nil _).symm⟩
    | tail _ hs ih =>
        obtain ⟨events, hu⟩ := ih
        obtain ⟨events', hv⟩ := hs.history_eq
        exact ⟨events ++ events', by rw [hv, hu, List.append_assoc]⟩
  obtain ⟨events, hv⟩ := hex
  rw [since_of_history_eq hv, hv]

/-- Nothing has happened since now. -/
@[simp] theorem since_self (w : World F M) : w.since w = [] := by
  simp [since]

/-- What happened on the way to a world, and then after it. -/
theorem Reaches.since_append {w u v : World F M} (hu : w.Reaches u) (hv : u.Reaches v) :
    v.since w = u.since w ++ v.since u := by
  apply since_of_history_eq
  rw [hv.history_eq, hu.history_eq, List.append_assoc]

/-- To create a tokenizer is a step. -/
theorem reaches_create (w : World F M) (source : Text) : w.Reaches (w.create source).2 :=
  .single (.created w source)

/-- To take a list is a question and a step more. -/
theorem reaches_hold (w : World F M) (h : Handle) : w.Reaches (w.hold h).2 :=
  (Relation.ReflTransGen.single (.asked w h .tokens)).tail (.listed _ rfl)

/-- To empty a list is a step. -/
theorem reaches_clear (w : World F M) (k : ListId) : w.Reaches (w.clear k) :=
  .single (.listed w (w.shelf.toList_clear k))

/-! ### One tokenizer on the way -/

/-- The handle of a new tokenizer has been given out. -/
theorem lt_next_create (w : World F M) (source : Text) :
    (w.create source).1 < (w.create source).2.shelf.next :=
  Shelf.lt_next_put ..

/-- Only a handle that has been given out stands for a tokenizer with text left. -/
theorem lt_next_of_hasMore {w : World F M} {h : Handle} (hmore : (w.get h).hasMore = true) :
    h < w.shelf.next := by
  refine Nat.lt_of_not_le ?_
  intro hle
  have hnone : w.shelf.toList[h]? = none := List.getElem?_eq_none hle
  have hvacant : w.get h = Shelf.vacant := by
    simp [World.get, Shelf.get, List.getD_eq_getElem?_getD, hnone]
  rw [hvacant] at hmore
  cases hmore

/-- **What a step does to one tokenizer**: nothing, or what a single command does. -/
theorem Step.get_cases {w v : World F M} (hs : Step w v) {h : Handle} (hh : h < w.shelf.next) :
    h < v.shelf.next ∧
      ((v.get h = w.get h ∧ ∀ e ∈ v.since w, e.handle = h → e.Spares (w.get h)) ∨
        ∃ c, v = (w.tell h c).2) := by
  cases hs with
  | created source =>
      -- A new tokenizer gets a handle that has not been given out.
      have hne : h ≠ (w.create source).1 := Nat.ne_of_lt hh
      refine ⟨Nat.lt_of_lt_of_le hh (Shelf.next_le_next_put ..), .inl ?_⟩
      rw [since_of_history_eq (w.history_create source), get_create_of_ne w source hne]
      simp only [List.mem_singleton, forall_eq]
      exact ⟨trivial, fun hhandle => absurd hhandle.symm hne⟩
  | entered f k =>
      refine ⟨hh, .inl ⟨rfl, ?_⟩⟩
      rw [since_of_history_eq (w.history_note _)]
      simp only [List.mem_singleton, forall_eq]
      rintro rfl
      rfl
  | asked k q =>
      refine ⟨hh, .inl ⟨rfl, ?_⟩⟩
      rw [since_of_history_eq (w.history_ask k q)]
      simp only [List.mem_singleton, forall_eq]
      rintro rfl
      rfl
  | told k c =>
      refine ⟨Nat.lt_of_lt_of_le hh (Shelf.next_le_next_put ..), ?_⟩
      by_cases hk : k = h
      · exact .inr ⟨c, by rw [hk]⟩
      · refine .inl ⟨get_tell_of_ne w c (Ne.symm hk), ?_⟩
        rw [since_of_history_eq (w.history_tell k c)]
        intro e he hhandle
        -- Its events are on account of the other tokenizer.
        have hother : e.handle = k := by
          rcases List.mem_cons.mp he with rfl | he
          · rfl
          · obtain ⟨record, _, rfl⟩ := List.mem_map.mp he
            rfl
        exact absurd (hother.symm.trans hhandle) hk
  | reported k hrecord =>
      refine ⟨hh, .inl ⟨rfl, ?_⟩⟩
      rw [since_of_history_eq (w.history_report k _)]
      simp only [List.mem_singleton, forall_eq]
      exact fun _ => hrecord
  | @listed shelf hshelf =>
      have hget : shelf.get h = w.get h := by rw [Shelf.get, hshelf, World.get, Shelf.get]
      refine ⟨?_, .inl ⟨hget, ?_⟩⟩
      · rwa [Shelf.next, hshelf]
      · simp [since, history, List.drop_of_length_le]
  | configured s =>
      refine ⟨hh, .inl ⟨rfl, ?_⟩⟩
      simp [since, history, List.drop_of_length_le]
  | remembered m =>
      refine ⟨hh, .inl ⟨rfl, ?_⟩⟩
      simp [since, history, List.drop_of_length_le]

/-- No step changes the source of a tokenizer that has been created. -/
theorem Step.source_eq {w v : World F M} (hs : Step w v) {h : Handle}
    (hh : h < w.shelf.next) : (v.get h).source = (w.get h).source ∧ h < v.shelf.next := by
  obtain ⟨hnext, ⟨hsame, _⟩ | ⟨c, rfl⟩⟩ := hs.get_cases hh
  · exact ⟨congrArg Tokenizer.source hsame, hnext⟩
  · rw [get_tell]
    exact ⟨c.source_apply _, hnext⟩

/-- No number of steps changes the source of a tokenizer. -/
theorem Reaches.source_eq {w v : World F M} (hr : w.Reaches v) {h : Handle}
    (hh : h < w.shelf.next) : (v.get h).source = (w.get h).source := by
  have hboth : (v.get h).source = (w.get h).source ∧ h < v.shelf.next := by
    induction hr with
    | refl => exact ⟨rfl, hh⟩
    | tail _ hs ih =>
        obtain ⟨hsource, hnext⟩ := hs.source_eq ih.2
        exact ⟨hsource.trans ih.1, hnext⟩
  exact hboth.1

end World

/-! ### Executions go step by step -/

open World (Step Reaches)

/-- Whatever its outcome, the execution leaves a world that some steps lead to. -/
def Execution.Steps (x : Execution F M α) : Prop := ∀ w : World F M, w.Reaches (x w).2

/-- Steps are a course, on which other settings are one step away. -/
theorem World.isCourse_reaches : World.IsCourse (F := F) (M := M) Reaches where
  refl _ := .refl
  trans := Relation.ReflTransGen.trans
  configured w s := .single (.configured w s)

namespace Execution

/-- The world that a given execution leaves is reached. -/
theorem Steps.reaches {x : Execution F M α} (hx : x.Steps) {w v : World F M}
    {r : Option (Except Fault α)} (hxw : x w = (r, v)) : w.Reaches v := by
  have hw := hx w
  rwa [hxw] at hw

/-- To go step by step is a law about one execution. -/
theorem steps_iff {x : Execution F M α} :
    (Comparison.along World.isCourse_reaches fun _ => True).Relates Eq x x ↔ x.Steps :=
  Comparison.along_relates_iff

/-- One execution after the other, step by step. -/
theorem Steps.bind {x : Execution F M α} {k : α → Execution F M β} (hx : x.Steps)
    (hk : ∀ a, (k a).Steps) : (x.bind k).Steps := by
  refine steps_iff.mp ((steps_iff.mpr hx).bind ?_)
  rintro a _ rfl
  exact steps_iff.mpr (hk a)

end Execution

namespace Chain

/-- A chain that stops reports once at most. -/
theorem reaches_stop (settings : Settings F) (h : Handle) (w : World F M) :
    w.Reaches (stop settings h w).2 := by
  unfold stop
  dsimp only
  split
  · exact .single (.reported w h rfl)
  · exact .refl

variable {enter : F → Handle → Execution F M (Value F)}

/-- A state is called step by step if callables are. -/
theorem steps_call (henter : ∀ f h, (enter f h).Steps) (h : Handle) (s : State F) :
    (s.call enter h).Steps := by
  rw [State.call_eq]
  exact henter s.callee h

variable [Callable F]

/-- A chain that goes from state to state reports once at most. -/
theorem reaches_arrive (settings : Settings F) (h : Handle) (source : State F)
    (target : Option (State F)) (w : World F M) :
    w.Reaches (arrive settings h source target w) := by
  unfold arrive
  split
  · exact .single (.reported w h rfl)
  · exact .refl

/-- What the laws about chains ask for, of steps. -/
theorem stepwise (h : Handle) :
    (Comparison.along (World.isCourse_reaches (F := F) (M := M)) fun _ => True).Chains h h
      Eq Eq Eq Eq :=
  Comparison.along_chains reaches_stop reaches_arrive h

/-- A chain goes step by step from any state on, if calls do. -/
theorem steps_follow (henter : ∀ f h, (enter f h).Steps) (settings : Settings F) (h : Handle)
    (fuel : Nat) (s : Option (State F)) : (follow enter settings h fuel s).Steps := by
  refine Execution.steps_iff.mp ((stepwise h).related_follow rfl ?_ .same ?_)
  · rintro s _ rfl
    exact Execution.steps_iff.mpr (steps_call henter h s)
  · cases s <;> constructor; rfl

/-- A run goes step by step, if calls do. -/
theorem steps_run (henter : ∀ f h, (enter f h).Steps) (fuel : Nat) (h : Handle)
    (initial : Value F) : (run enter fuel h initial).Steps := by
  refine Execution.steps_iff.mp ((stepwise h).run_of_eq (fun f => ?_) .same rfl)
  exact Execution.steps_iff.mpr (henter f h)

end Chain

variable [Callable F]

/-- A program goes step by step if calls do. -/
theorem Program.steps_exec {enter : F → Handle → Execution F M (Value F)}
    (henter : ∀ f h, (enter f h).Steps) (fuel : Nat) (p : Program F M α) :
    (p.exec enter fuel).Steps := by
  refine Comparison.along_exec World.isCourse_reaches ?_ p.each_true
  intro β p hstep _ w
  -- What a program does itself is a step each, and to take a list is two.
  cases p with
  | create source => exact .single (.created w source)
  | ask h q => exact .single (.asked w h q)
  | tell h c => exact .single (.told w h c)
  | run h initial => exact Chain.steps_run henter fuel h initial w
  | call f h => exact henter f h w
  | hold h => exact w.reaches_hold h
  | held k => exact .refl
  | clear k => exact w.reaches_clear k
  | settings => exact .refl
  | configure s => exact .single (.configured w s)
  | memory => exact .refl
  | remember m => exact .single (.remembered w m)
  | _ => exact hstep.elim

/-- A call on a machine goes step by step, the entry first. -/
theorem Machine.steps_enter (machine : Machine F M) (fuel : Nat) (f : F) (h : Handle) :
    (machine.enter fuel f h).Steps := by
  induction fuel generalizing f h with
  | zero => exact fun _ => .refl
  | succ fuel ih =>
      intro w
      exact .head (.entered w f h) (Program.steps_exec ih fuel (machine f h) _)

/-- **Every execution goes step by step**, on every machine, with any amount of
fuel and whatever comes of it. -/
theorem Machine.exec_reaches (machine : Machine F M) (fuel : Nat) (p : Program F M α)
    (w : World F M) : w.Reaches (machine.exec fuel p w).2 :=
  Program.steps_exec (machine.steps_enter fuel) fuel p w

end LexChain
