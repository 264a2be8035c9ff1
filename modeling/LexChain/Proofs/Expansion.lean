import LexChain.Ini.States
import LexChain.Proofs.Fuel
import LexChain.Proofs.SingleSteps
import Mathlib.Data.List.TakeWhile
import Mathlib.Order.Filter.AtTopBot.Basic

/-!
# `LexChain.Proofs.Expansion`: programs in single steps

`Program.inSteps` is a program with each of its commands in single steps, and `Machine.inSteps` is a
machine of such programs. `compound_commands_are_single_steps` says that it comes to the same
outcome in a world that agrees, as long as the program leaves it to the tokenizers where start and
cursor go.

The two executions differ in their questions and commands, and in the fuel that they need. So one is
compared with the other at all amounts of fuel from some amount on (`Comparison.following`): an
outcome of the first one is an outcome of the second one, if it has fuel enough. The law is about
any two programs that may take the place of a command, one of which follows the other
(`Program.Renders`), and `Machine.Ends.translate` is what comes of it. It is used in both
directions: single steps follow the command (`renders_inSteps`), and the command follows them
(`renders_of_inSteps`).
-/

set_option autoImplicit false

namespace LexChain

variable {F M α β σ : Type}

/-! ### Programs with other programs in place of their commands -/

namespace Program

/-- A program with other programs in place of its commands. -/
def translate (e : Handle → Command F → Program F M Unit) :
    {α : Type} → Program F M α → Program F M α
  | _, .bind p k => .bind (p.translate e) fun a => (k a).translate e
  | _, .attempt p => .attempt (p.translate e)
  | _, .iterate step seed => .iterate (fun s => (step s).translate e) seed
  | _, .within scope p => .within scope (p.translate e)
  | _, .tell h c => e h c
  | _, p => p

/-- With its own commands in their place a program stays as it is. -/
theorem translate_tell (p : Program F M α) : p.translate tell = p := by
  induction p with
  | bind p k ihp ihk => rw [translate, ihp, funext ihk]
  | attempt p ih => rw [translate, ih]
  | iterate step seed ih => rw [translate, funext ih]
  | within scope p ih => rw [translate, ih]
  | _ => rfl

/-- A program with all of its commands in single steps. -/
def inSteps (p : Program F M α) : Program F M α := p.translate fun h c => c.inSteps h

/-- Whether a step leaves it to the tokenizers where start and cursor go. -/
def AssignsNothing : {α : Type} → Program F M α → Prop
  | _, .tell _ c => c.IsPublic
  | _, _ => True

/-- A program that leaves it to the tokenizers where start and cursor go, in all of its parts. -/
abbrev IsPublic (p : Program F M α) : Prop := p.Each AssignsNothing

end Program

namespace Machine

/-- A machine whose programs have other programs in place of their commands. -/
def translate (e : Handle → Command F → Program F M Unit) (machine : Machine F M) :
    Machine F M :=
  fun f h => (machine f h).translate e

/-- A machine whose programs work in single steps. -/
def inSteps (machine : Machine F M) : Machine F M := fun f h => (machine f h).inSteps

/-- With the commands of its programs in their own place a machine stays as it is. -/
theorem translate_tell (machine : Machine F M) : machine.translate Program.tell = machine := by
  funext f h
  exact (machine f h).translate_tell

end Machine

/-! ### Worlds that agree -/

namespace World

variable {w v : World F M}

/-- To create a tokenizer is no report. -/
theorem records_create (w : World F M) (source : Text) :
    (w.create source).2.records = w.records := by
  simp [records, Event.record?]

/-- To create a tokenizer enters no callable. -/
theorem entries_create (w : World F M) (source : Text) :
    (w.create source).2.entries = w.entries := by
  simp [entries, Event.entry?]

namespace Agrees

/-- The same event, if it is no command, changes nothing about it. -/
theorem note (hwv : w.Agrees v) {e e' : Event F} (hrecord : e'.record? = e.record?)
    (hentry : e'.entry? = e.entry?) : (w.note e).Agrees (v.note e') :=
  { hwv with
    records_eq := by
      have hrecords := hwv.records_eq
      simp only [records, history_note, List.filterMap_append, List.filterMap_cons, hrecord] at *
      rw [hrecords]
    entries_eq := by
      have hentries := hwv.entries_eq
      simp only [entries, history_note, List.filterMap_append, List.filterMap_cons, hentry] at *
      rw [hentries] }

/-- A callable may be entered in both worlds: the cursor is the same there. -/
theorem entered (hwv : w.Agrees v) (f : F) (h : Handle) :
    (w.note (.entered f h (w.get h))).Agrees (v.note (.entered f h (v.get h))) :=
  hwv.note rfl (by rw [Event.entry?, Event.entry?, hwv.get_eq])

/-- The same may be reported. -/
theorem report (hwv : w.Agrees v) (h : Handle) (record : Record F) :
    (w.report h record).Agrees (v.report h record) :=
  hwv.note rfl rfl

/-- A question has the same answer. -/
theorem ask (hwv : w.Agrees v) (h : Handle) (q : Query) :
    (w.ask h q).1 = (v.ask h q).1 ∧ (w.ask h q).2.Agrees (v.ask h q).2 :=
  ⟨by rw [World.ask, World.ask, hwv.get_eq], hwv.note rfl rfl⟩

/-- Other settings may be put in force. -/
theorem configure (hwv : w.Agrees v) (s : Settings F) :
    ({ w with settings := s } : World F M).Agrees { v with settings := s } :=
  { hwv with settings_eq := rfl }

/-- Something else may be remembered. -/
theorem remember (hwv : w.Agrees v) (m : M) :
    ({ w with memory := m } : World F M).Agrees { v with memory := m } :=
  { hwv with memory_eq := rfl }

/-- A command has the same outcome. -/
theorem tell (hwv : w.Agrees v) (h : Handle) (c : Command F) :
    (w.tell h c).1 = (v.tell h c).1 ∧ (w.tell h c).2.Agrees (v.tell h c).2 := by
  refine ⟨by rw [World.tell, World.tell, hwv.get_eq], ?_, ?_, hwv.handed_eq, ?_,
    hwv.settings_eq, hwv.memory_eq, ?_, ?_⟩
  · intro k
    by_cases hk : k = h
    · rw [hk, get_tell, get_tell, hwv.get_eq]
    · rw [get_tell_of_ne _ c hk, get_tell_of_ne _ c hk, hwv.get_eq]
  · rw [next_tell, next_tell, hwv.next_eq]
  · intro k
    rw [held_tell, held_tell, hwv.held_eq]
  · rw [records_tell, records_tell, hwv.records_eq, hwv.get_eq]
  · rw [entries_tell, entries_tell, hwv.entries_eq]

/-- A new tokenizer has the same handle. -/
theorem create (hwv : w.Agrees v) (source : Text) :
    (w.create source).1 = (v.create source).1 ∧
      (w.create source).2.Agrees (v.create source).2 := by
  have hhandle : (v.create source).1 = (w.create source).1 := hwv.next_eq
  refine ⟨hhandle.symm, ?_, ?_, hwv.handed_eq, ?_, hwv.settings_eq, hwv.memory_eq, ?_, ?_⟩
  · intro k
    by_cases hk : k = (w.create source).1
    · rw [hk, w.get_create, ← hhandle, v.get_create, hwv.settings_eq]
    · rw [w.get_create_of_ne source hk, v.get_create_of_ne source (hhandle ▸ hk), hwv.get_eq]
  · rw [next_create, next_create, hwv.next_eq]
  · intro k
    rw [held_create, held_create, hwv.held_eq]
  · rw [records_create, records_create, hwv.records_eq]
  · rw [entries_create, entries_create, hwv.entries_eq]

/-- A list is handed out under the same number. -/
theorem hold (hwv : w.Agrees v) (h : Handle) :
    (w.hold h).1 = (v.hold h).1 ∧ (w.hold h).2.Agrees (v.hold h).2 := by
  -- The lists handed out are numbered alike, so the new ones get the same number.
  have hnumber : v.shelf.handed.length = w.shelf.handed.length := hwv.handed_eq
  refine ⟨hnumber.symm, { (hwv.ask h .tokens).2 with handed_eq := ?_, held_eq := fun k => ?_ }⟩
  · show (v.shelf.hold h).handed.length = (w.shelf.hold h).handed.length
    rw [Shelf.handed_length_hold, Shelf.handed_length_hold, hnumber]
  · show (v.shelf.hold h).held k = (w.shelf.hold h).held k
    by_cases hk : k = w.shelf.handed.length
    · rw [hk, Shelf.held_hold, ← hnumber, Shelf.held_hold]
      exact congrArg Tokenizer.tokens (hwv.get_eq h)
    · rw [Shelf.held_hold_of_ne _ _ hk, Shelf.held_hold_of_ne _ _ (hnumber ▸ hk)]
      exact hwv.held_eq k

/-- A list may be emptied in both worlds. -/
theorem clear (hwv : w.Agrees v) (k : ListId) : (w.clear k).Agrees (v.clear k) := by
  refine { hwv with get_eq := fun h => ?_, next_eq := ?_, handed_eq := ?_, held_eq := fun j => ?_ }
  · rw [get_clear, get_clear, hwv.get_eq]
  · show (v.shelf.clear k).toList.length = (w.shelf.clear k).toList.length
    rw [Shelf.toList_clear, Shelf.toList_clear]
    exact hwv.next_eq
  · show (v.shelf.clear k).handed.length = (w.shelf.clear k).handed.length
    rw [Shelf.handed_clear, Shelf.handed_clear]
    exact hwv.handed_eq
  · show (v.shelf.clear k).held j = (w.shelf.clear k).held j
    by_cases hj : j = k
    · rw [hj, Shelf.held_clear, Shelf.held_clear]
    · rw [Shelf.held_clear_of_ne _ hj, Shelf.held_clear_of_ne _ hj]
      exact hwv.held_eq j

end Agrees

/-- A new tokenizer has start and cursor in order. -/
theorem inOrder_create (hw : ∀ h, (w.get h).InOrder) (source : Text) (k : Handle) :
    ((w.create source).2.get k).InOrder := by
  by_cases hk : k = (w.create source).1
  · rw [hk, w.get_create]
    exact (Tokenizer.shows_new source _).inOrder
  · rw [w.get_create_of_ne source hk]
    exact hw k

/-- Two worlds that agree, with start and cursor of every tokenizer in order. -/
structure Alike (w v : World F M) : Prop where
  agrees : w.Agrees v
  inOrder : ∀ h, (w.get h).InOrder

namespace Alike

/-- Both have the same tokenizers. -/
theorem get_eq (hwv : w.Alike v) (h : Handle) : v.get h = w.get h := hwv.agrees.get_eq h

/-- A report in both worlds or in none. -/
theorem report_if (hwv : w.Alike v) (c : Prop) [Decidable c] (h : Handle) (record : Record F) :
    (if c then w.report h record else w).Alike (if c then v.report h record else v) := by
  split
  · exact ⟨hwv.agrees.report h record, hwv.inOrder⟩
  · exact hwv

/-- A tokenizer is created in both worlds. -/
theorem create (hwv : w.Alike v) (source : Text) :
    (w.create source).1 = (v.create source).1 ∧
      (w.create source).2.Alike (v.create source).2 := by
  obtain ⟨hhandle, hagrees⟩ := hwv.agrees.create source
  exact ⟨hhandle, hagrees, inOrder_create hwv.inOrder source⟩

/-- A public command is given in both worlds. -/
theorem tell (hwv : w.Alike v) (h : Handle) {c : Command F} (hc : c.IsPublic) :
    (w.tell h c).1 = (v.tell h c).1 ∧ (w.tell h c).2.Alike (v.tell h c).2 := by
  obtain ⟨houtcome, hagrees⟩ := hwv.agrees.tell h c
  refine ⟨houtcome, hagrees, fun k => ?_⟩
  by_cases hk : k = h
  · rw [hk, get_tell]
    exact ((hwv.inOrder h).shows.apply hc).inOrder
  · rw [w.get_tell_of_ne c hk]
    exact hwv.inOrder k

/-- A list is emptied in both worlds. -/
theorem clear (hwv : w.Alike v) (k : ListId) : (w.clear k).Alike (v.clear k) := by
  refine ⟨hwv.agrees.clear k, fun h => ?_⟩
  rw [get_clear]
  exact hwv.inOrder h

end Alike

end World

/-! ### Programs that follow one another -/

namespace Program

variable {e e' : Handle → Command F → Program F M Unit}

/-- A step that leaves it to the tokenizers where start and cursor go, beside itself. In place of a
command there are two programs. -/
inductive Rendered (e e' : Handle → Command F → Program F M Unit) :
    {α β : Type} → (α → β → Prop) → Program F M α → Program F M β → Prop
  | intro {α : Type} {p : Program F M α} (hstep : p.IsStep) (hp : p.AssignsNothing) :
      Rendered e e' Eq (p.translate e) (p.translate e')

end Program

/-- Whatever outcome the first execution has, the second one comes to it in every world that agrees,
and leaves a world that agrees again. Nothing is said if the first one runs out of fuel. -/
def Comparison.following (e e' : Handle → Command F → Program F M Unit) : Comparison F M where
  steps := Program.Rendered e e'
  -- An expansion may need more fuel than the command, so a side that is exhausted first is
  -- related to anything.
  lax := True
  Leads w v w' v' := w.Alike v ∧ w'.Alike v'
  start := fun ⟨_, hwv⟩ => ⟨hwv, hwv⟩
  trans := fun ⟨hwv, _⟩ ⟨_, hwv'⟩ => ⟨hwv, hwv'⟩
  -- The settings are equal on both sides, so a thread starts and ends alike on both.
  enter := by
    rintro w v s _ rfl ⟨hwv, -⟩
    have hin := hwv.agrees.configure (s.entry w.settings)
    rw [← hwv.agrees.settings_eq] at hin ⊢
    exact ⟨⟨hin, hwv.inOrder⟩, hin, hwv.inOrder⟩
  leave := by
    rintro w v w' v' s _ rfl ⟨hwv, -⟩ ⟨-, hwv'⟩
    have hout := hwv'.agrees.configure w.settings
    rw [← hwv.agrees.settings_eq] at hout ⊢
    exact ⟨hwv, hout, hwv'.inOrder⟩

open Comparison (following related_of_forall related_of_ok)
open Filter (atTop)

namespace Program

variable {e e' : Handle → Command F → Program F M Unit}

/-- A public program is made of such steps, with one program in place of each command on the left
and the other on the right. -/
theorem IsPublic.corresponds {p : Program F M α} (hp : p.IsPublic) :
    (p.translate e).Corresponds (following e e').toCorrespondence Eq (p.translate e') := by
  induction p with
  | pure a => exact .pure rfl
  | bind p k ihp ihk => exact .seq (ihp hp.1) fun a => ihk a (hp.2 a)
  | fail x => exact .fail rfl
  | attempt p ih => exact .caught (fun _ _ => id) (ih hp)
  | iterate step seed ih => exact .loop (fun s => ih s (hp s)) seed
  | within scope p ih => exact .within rfl (ih hp)
  | _ => exact .step (.intro trivial hp)

end Program

variable [Callable F]

/-- Chains in worlds that agree report the same. -/
theorem Chain.following (e e' : Handle → Command F → Program F M Unit) (h : Handle) :
    (following e e').Chains h h Eq Eq Eq Eq := by
  refine .of_eq (fun _ => rfl) ?_ ?_ ?_ ?_ ?_
  · exact fun _ _ hwv => hwv.1.agrees.settings_eq.symm
  · exact fun _ _ hwv => by rw [hwv.1.get_eq]
  · exact fun _ _ hwv => by rw [hwv.1.get_eq]
  · rintro w v g _ rfl ⟨hwv, -⟩
    simp only [stop, hwv.get_eq]
    exact ⟨hwv, hwv.report_if _ h _⟩
  · rintro w v g _ s t rfl ⟨hwv, -⟩
    simp only [arrive, hwv.get_eq]
    exact ⟨hwv, hwv.report_if _ h _⟩

/-- For every public command the program in the one place is followed by the one in the other,
whatever calls do. -/
def Program.Renders (e e' : Handle → Command F → Program F M Unit) : Prop :=
  ∀ (h : Handle) (c : Command F), c.IsPublic →
    ∀ (enter : F → Handle → Execution F M (Value F)) (fuel : Nat)
      (enter' : Nat → F → Handle → Execution F M (Value F)),
      (following e e').Related atTop Eq ((e h c).exec enter fuel)
        fun n => (e' h c).exec (enter' n) n

namespace Machine

variable {e e' : Handle → Command F → Program F M Unit} {machine : Machine F M}

/-- A single step is followed by itself, and a command's program by the other one, if calls are. -/
theorem following_step (he : Program.Renders e e')
    {enter : F → Handle → Execution F M (Value F)}
    {enter' : Nat → F → Handle → Execution F M (Value F)}
    (henter : ∀ f h, (following e e').Related atTop Eq (enter f h) fun n => enter' n f h)
    {fuel : Nat} (hrounds : (following e e').Covers atTop fuel id) {p : Program F M α}
    (hstep : p.IsStep) (hp : p.AssignsNothing) :
    (following e e').Related atTop Eq ((p.translate e).exec enter fuel)
      fun n => (p.translate e').exec (enter' n) n := by
  -- A command to a tokenizer is where the programs differ, and there the rendering answers for
  -- it. Every other single command is the same on both sides.
  cases p with
  | create source =>
      exact related_of_ok fun _ _ hwv => ⟨(hwv.1.create source).1, hwv.1, (hwv.1.create source).2⟩
  | ask h q =>
      refine related_of_forall fun w v ⟨hwv, _⟩ => ?_
      obtain ⟨hanswer, hworld⟩ := hwv.agrees.ask h q
      refine ⟨?_, hwv, hworld, hwv.inOrder⟩
      show Option.Rel _ (some (w.ask h q).1) (some (v.ask h q).1)
      rw [hanswer]
      exact Results.outcome_refl (fun _ => rfl) _
  | tell h c => exact he h c hp enter fuel enter'
  | run h initial =>
      exact (Chain.following e e' h).run_of_eq (fun f => henter f h) hrounds rfl
  | call f h => exact henter f h
  | hold h =>
      refine related_of_ok fun w v ⟨hwv, _⟩ => ?_
      obtain ⟨hnumber, hworld⟩ := hwv.agrees.hold h
      exact ⟨hnumber, hwv, hworld, hwv.inOrder⟩
  | held k => exact related_of_ok fun _ _ hwv => ⟨(hwv.1.agrees.held_eq k).symm, hwv⟩
  | clear k => exact related_of_ok fun _ _ hwv => ⟨rfl, hwv.1, hwv.1.clear k⟩
  | settings => exact related_of_ok fun _ _ hwv => ⟨hwv.1.agrees.settings_eq.symm, hwv⟩
  | configure s =>
      exact related_of_ok fun _ _ hwv => ⟨rfl, hwv.1, hwv.1.agrees.configure s, hwv.1.inOrder⟩
  | memory => exact related_of_ok fun _ _ hwv => ⟨hwv.1.agrees.memory_eq.symm, hwv⟩
  | remember m =>
      exact related_of_ok fun _ _ hwv => ⟨rfl, hwv.1, hwv.1.agrees.remember m, hwv.1.inOrder⟩
  | pure | bind | fail | attempt | iterate | within => exact hstep.elim

/-- **A public program is followed by itself with other programs in place of its commands**, if
these follow and calls do. -/
theorem following_exec (he : Program.Renders e e')
    {enter : F → Handle → Execution F M (Value F)}
    {enter' : Nat → F → Handle → Execution F M (Value F)}
    (henter : ∀ f h, (following e e').Related atTop Eq (enter f h) fun n => enter' n f h)
    (fuel : Nat) {p : Program F M α} (hp : p.IsPublic) :
    (following e e').Related atTop Eq ((p.translate e).exec enter fuel)
      fun n => (p.translate e').exec (enter' n) n := by
  have hrounds : (following e e').Covers atTop fuel id :=
    .inr ⟨trivial, Filter.eventually_ge_atTop fuel⟩
  refine hp.corresponds.exec (fun hpq => ?_) hrounds
  cases hpq with
  | intro hstep hp => exact following_step he henter hrounds hstep hp

/-- Calls are followed by calls. By induction on the fuel of the first one: the other one needs a
unit more than its program does. -/
theorem following_enter (he : Program.Renders e e') (hmachine : ∀ f h, (machine f h).IsPublic)
    (fuel : Nat) (f : F) (h : Handle) :
    (following e e').Related atTop Eq ((machine.translate e).enter fuel f h)
      fun n => (machine.translate e').enter n f h := by
  induction fuel generalizing f h with
  | zero => exact fun _ _ _ => .inl ⟨trivial, rfl⟩
  | succ fuel ih =>
      have hentered : ∀ ⦃w v : World F M⦄, w.Alike v ∧ w.Alike v → w.Alike v ∧
          (w.note (.entered f h (w.get h))).Alike (v.note (.entered f h (v.get h))) :=
        fun _ _ ⟨hwv, _⟩ => ⟨hwv, hwv.agrees.entered f h, hwv.inOrder⟩
      have hbody := (following_exec he ih fuel (hmachine f h)).after hentered
      -- Entering takes one unit of fuel on either side, so the body on the right is run with
      -- one less.
      refine (hbody.comp (Filter.tendsto_sub_atTop_nat 1)).congr ?_
      filter_upwards [Filter.eventually_ge_atTop 1] with n hn
      obtain ⟨m, rfl⟩ : ∃ m, n = m + 1 := ⟨n - 1, by omega⟩
      rfl

/-- What a program ends with, it ends with too when others take the place of its commands, and of
those of its machine. -/
theorem Ends.translate (he : Program.Renders e e') (hmachine : ∀ f h, (machine f h).IsPublic)
    {p : Program F M α} (hp : p.IsPublic) {w v : World F M} {r : Except Fault α}
    (hw : ∀ h, (w.get h).InOrder)
    (hends : (machine.translate e).Ends (p.translate e) w r v) :
    ∃ v', (machine.translate e').Ends (p.translate e') w r v' ∧ v.Agrees v' := by
  obtain ⟨fuel, hexec⟩ := hends
  have hself : w.Alike w := ⟨.refl w, hw⟩
  have hfollowing := following_exec he (following_enter he hmachine fuel) fuel hp ⟨hself, hself⟩
  -- The run on the left has ended, so the lax case is out, and on the right all fuel from some
  -- least amount on gives the related outcome.
  rw [← exec, hexec] at hfollowing
  rcases hfollowing with ⟨-, hnone⟩ | ⟨o, v', hexec', houtcome, -, hvv⟩
  · cases hnone
  · obtain rfl := Results.outcome_eq (fun _ _ => id) houtcome
    obtain ⟨least, hleast⟩ := Filter.eventually_atTop.mp hexec'
    exact ⟨v', ⟨least, hleast least (Nat.le_refl _)⟩, hvv.agrees⟩

end Machine

/-! ### Single steps -/

namespace Program

/-- Commands are followed by their single steps. -/
theorem renders_inSteps :
    Renders (F := F) (M := M) tell fun h c => c.inSteps h := by
  intro h c hc enter fuel enter' w v ⟨hwv, _⟩
  obtain ⟨houtcome, hworld⟩ := hwv.tell h hc
  obtain ⟨v', hagrees, least, hexec⟩ := c.exec_inSteps (w := v) (h := h)
    (by rw [hwv.get_eq]; exact (hwv.inOrder h).position_le_size)
  refine .inr ⟨_, v', Filter.eventually_atTop.mpr ⟨least, fun n hn => hexec (enter' n) n hn⟩, ?_,
    hwv, hworld.agrees.trans hagrees, hworld.inOrder⟩
  rw [← houtcome]
  exact Results.outcome_refl (fun _ => rfl) _

/-- Single steps are followed by their command. -/
theorem renders_of_inSteps :
    Renders (F := F) (M := M) (fun h c => c.inSteps h) tell := by
  intro h c hc enter fuel enter' w v ⟨hwv, _⟩
  obtain ⟨houtcome, hworld⟩ := hwv.tell h hc
  obtain ⟨u, hagrees, least, hexec⟩ := c.exec_inSteps (hwv.inOrder h).position_le_size
  by_cases hnone : ((c.inSteps h).exec enter fuel w).1 = none
  · exact .inl ⟨trivial, hnone⟩
  -- With more fuel the outcome is the same, and with enough it is that of the command.
  have hmore := extends_exec (fun f h => .refl (enter f h)) (Nat.le_max_left fuel least)
    (c.inSteps h) w hnone
  rw [hexec enter _ (Nat.le_max_right fuel least)] at hmore
  rw [← hmore]
  refine .inr ⟨_, (v.tell h c).2, .of_forall fun _ => rfl, ?_, hwv,
    hagrees.symm.trans hworld.agrees, fun k => ?_⟩
  · rw [← houtcome]
    exact Results.outcome_refl (fun _ => rfl) _
  · rw [hagrees.get_eq]
    exact hworld.inOrder k

end Program

/-! ### Runs of whitespace -/

namespace Tokenizer

omit [Callable F]

/-- The text that is passed over goes up to the first character that is no whitespace, and makes a
token of its own unless it is empty. -/
theorem InOrder.consumeBlanks_passes {t : Tokenizer F} (ht : t.InOrder) :
    ∃ run u, t.consumeBlanks = (.ok (), u) ∧ t.rest = run ++ u.rest ∧
      (∀ c ∈ run, Text.isBlank c = true) ∧ (∀ c ∈ u.rest.head?, Text.isBlank c = false) ∧
      u.tokens = (t.tokenize .text).tokens ++ Tape.piece run (.category .whitespace) ∧
      u.position = t.position + run.length ∧ u.start = u.position := by
  obtain ⟨hok, hshows⟩ := ht.shows.consumeBlanks
  have hflushed := (ht.shows.tokenize .text).tokens_eq
  have hlength := ht.length_rest
  have hlength' := hshows.inOrder.length_rest
  -- On the tape the loop is a split of the rest at its first character that is not blank.
  rw [Tape.passWhile_eq] at hshows
  have hrest : t.consumeBlanks.2.rest = t.rest.dropWhile Text.isBlank := hshows.rest_eq
  have hsplit : t.rest = t.rest.takeWhile Text.isBlank ++ t.consumeBlanks.2.rest := by
    rw [hrest, List.takeWhile_append_dropWhile]
  have hsize : t.consumeBlanks.2.size = t.size := by
    rw [size, size]
    exact congrArg List.length (Command.source_apply .consumeBlanks t)
  refine ⟨_, t.consumeBlanks.2, Prod.ext hok rfl, hsplit, ?_, ?_, ?_, ?_, ?_⟩
  · intro c hc
    exact List.mem_takeWhile_imp hc
  · intro c hc
    have hhead := List.head?_dropWhile_not Text.isBlank t.rest
    rw [← hrest, hc] at hhead
    simpa using hhead
  · rw [hshows.tokens_eq, hflushed]
    rfl
  · have hsum := congrArg List.length hsplit
    rw [List.length_append] at hsum
    omega
  · exact hshows.inOrder.pending_eq_nil_iff.mp hshows.pending_eq

/-- A second time there is nothing to pass over. -/
theorem InOrder.consumeBlanks_twice {t : Tokenizer F} (ht : t.InOrder) :
    t.consumeBlanks.2.consumeBlanks = (.ok (), t.consumeBlanks.2) := by
  obtain ⟨run, u, hconsumed, -, -, hhead, -, -, hstart⟩ := ht.consumeBlanks_passes
  have hu : u.InOrder := by
    have hshows := ht.shows.consumeBlanks.2
    rw [hconsumed] at hshows
    exact hshows.inOrder
  have hnone : u.rest.takeWhile Text.isBlank = [] := by
    cases hrest : u.rest with
    | nil => rfl
    | cons c r => simp [hhead c (by simp [hrest])]
  -- Nothing is pending and no blank is ahead, so both flushes and the loop do nothing.
  have hflushed : ∀ label, u.tokenize label = u := fun label => if_pos hstart
  have hpassed : ({ u with position := u.position + 0 } : Tokenizer F) = u := by simp
  rw [hconsumed, consumeBlanks]
  simp only [hflushed, hu.ahead_position, hnone, List.length_nil, Int.ofNat_zero, hpassed]

end Tokenizer

/-- **Compound commands are their single steps.** From a tokenizer in order, an amount under a label
has the effect of a flush, as many moves of the cursor by one, and another flush. A run of
whitespace has that of a flush, a move of the cursor by one as long as there is whitespace at it,
and another flush. So it is passed over up to the first other character, and asking for it twice is
asking once. And every program that leaves start and cursor to the tokenizers ends as it does with
all of its commands, and those of the machine, in single steps, or neither ends. -/
theorem compound_commands_are_single_steps (machine : Machine F M) :
    (∀ (w : World F M) (h : Handle), (w.get h).InOrder →
      (∀ (amount : Int) (label : Value F), 0 ≤ amount →
        (w.tell h (.tokenizeNext amount label)).1 = .ok () ∧
        ∃ v, machine.Ends (do
            Program.tell h (.tokenize .text)
            Program.times (Program.tell h .advance) amount.toNat
            Program.tell h (.tokenize label)) w (.ok ()) v ∧
          (w.tell h (.tokenizeNext amount label)).2.Agrees v) ∧
      (w.tell h .consumeBlanks).1 = .ok () ∧
      (∃ v, machine.Ends (do
            Program.tell h (.tokenize .text)
            Program.whileTrue (Program.atBlank h) (Program.tell h .advance)
            Program.tell h (.tokenize (.category .whitespace))) w (.ok ()) v ∧
          (w.tell h .consumeBlanks).2.Agrees v) ∧
      (∃ run u, (w.get h).consumeBlanks = (.ok (), u) ∧ (w.get h).rest = run ++ u.rest ∧
        (∀ c ∈ run, Text.isBlank c = true) ∧ (∀ c ∈ u.rest.head?, Text.isBlank c = false) ∧
        u.tokens = ((w.get h).tokenize .text).tokens ++ Tape.piece run (.category .whitespace) ∧
        u.position = (w.get h).position + run.length ∧ u.start = u.position ∧
        u.consumeBlanks = (.ok (), u))) ∧
    ∀ {α : Type} (p : Program F M α) (w : World F M), (∀ f h, (machine f h).IsPublic) →
      p.IsPublic → (∀ h, (w.get h).InOrder) → ∀ r,
        (∀ v, machine.Ends p w r v → ∃ v', machine.inSteps.Ends p.inSteps w r v' ∧ v.Agrees v') ∧
        ∀ v', machine.inSteps.Ends p.inSteps w r v' → ∃ v, machine.Ends p w r v ∧ v.Agrees v' := by
  refine ⟨fun w h hw => ⟨?_, ?_, ?_, ?_⟩, fun p w hmachine hp hw r => ⟨?_, ?_⟩⟩
  · intro amount label hamount
    have hneg : ¬amount < 0 := Int.not_lt.mpr hamount
    obtain ⟨v, hagrees, hexec⟩ :=
      Command.exec_inSteps_tokenizeNext hamount hw.position_le_size label
    have hsteps := hexec (machine.enter 0) 0
    rw [Command.inSteps, if_neg hneg] at hsteps
    exact ⟨by simp [World.tell, Command.apply, Tokenizer.tokenizeNext, hneg], v, ⟨0, hsteps⟩,
      hagrees⟩
  · exact hw.shows.consumeBlanks.1
  · obtain ⟨v, hagrees, least, hexec⟩ := Command.exec_inSteps_consumeBlanks w h
    have hok : (w.tell h .consumeBlanks).1 = .ok () := hw.shows.consumeBlanks.1
    rw [hok] at hexec
    exact ⟨v, ⟨least, hexec (machine.enter least) least (Nat.le_refl _)⟩, hagrees⟩
  · obtain ⟨run, u, hconsumed, hrest, hrun, hhead, htokens, hposition, hstart⟩ :=
      hw.consumeBlanks_passes
    have htwice := hw.consumeBlanks_twice
    rw [hconsumed] at htwice
    exact ⟨run, u, hconsumed, hrest, hrun, hhead, htokens, hposition, hstart, htwice⟩
  · -- Both directions are one comparison, with the two renderings changed over.
    intro v hends
    rw [← machine.translate_tell, ← p.translate_tell] at hends
    exact hends.translate Program.renders_inSteps hmachine hp hw
  · intro v' hends
    obtain ⟨v, hv, hagrees⟩ :=
      Machine.Ends.translate Program.renders_of_inSteps hmachine hp hw hends
    rw [machine.translate_tell, p.translate_tell] at hv
    exact ⟨v, hv, hagrees.symm⟩

omit [Callable F] in
/-- An amount beyond the end, and a chain of one state that passes over whitespace and cuts off
three characters. -/
theorem compound_commands_are_single_steps_two_words :
    let machine : Machine Ini.StateId Unit := fun s k => do
      Program.tell k .consumeBlanks
      Program.tell k (.tokenizeNext 3 (.category .keyword))
      return .callable s
    let new : World Ini.StateId Unit := { memory := () }
    let w := (new.create "ab  cdefg".toList).2
    (∃ v, machine.Ends (do
        Program.tell 0 (.tokenize .text)
        Program.times (Program.tell 0 .advance) 12
        Program.tell 0 (.tokenize .none)) w (.ok ()) v ∧
      (w.tell 0 (.tokenizeNext 12 .none)).2.Agrees v) ∧
    ∃ v v' ts, machine.Ends (.run 0 (.callable .key)) w (.ok ts) v ∧
      ts.map Token.lexeme = ["ab ".toList, " ".toList, "cde".toList, "fg".toList] ∧
      machine.inSteps.Ends (.run 0 (.callable .key)) w (.ok ts) v' ∧ v.Agrees v' := by
  intro machine new w
  have hmachine : ∀ f h, (machine f h).IsPublic := fun _ _ =>
    .bind trivial fun _ => .bind trivial fun _ => trivial
  have hnew : ∀ h, (new.get h).InOrder := fun _ => (Tokenizer.shows_new [] false).inOrder
  have hw : ∀ h, (w.get h).InOrder := World.inOrder_create hnew _
  have hlexemes : ((machine.exec 9 (.run 0 (.callable .key)) w).1.bind Except.toOption).map
      (List.map Token.lexeme) = some ["ab ".toList, " ".toList, "cde".toList, "fg".toList] := by
    decide +kernel
  obtain ⟨ts, hts, hlexemes⟩ := Option.map_eq_some_iff.mp hlexemes
  obtain ⟨r, hr, hok⟩ := Option.bind_eq_some_iff.mp hts
  have hends := Machine.ends_exec hr
  obtain ⟨hcommands, hprograms⟩ := compound_commands_are_single_steps machine
  refine ⟨((hcommands w 0 (hw 0)).1 12 .none (by decide)).2, ?_⟩
  cases r with
  | error e => cases hok
  | ok us =>
      obtain rfl := Option.some.inj hok
      obtain ⟨v', hends', hagrees⟩ :=
        (hprograms (.run 0 (.callable .key)) w hmachine trivial hw _).1 _ hends
      exact ⟨_, v', us, hends, hlexemes, hends', hagrees⟩

end LexChain
