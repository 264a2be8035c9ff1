import LexChain.Ini.States
import LexChain.Proofs.Diagnostics

/-!
# `LexChain.Proofs.Locality`: states that work on one tokenizer only

A state is local if it does nothing but to the tokenizer that it is given: it asks and tells this
one, drives chains over it and calls states with it, and may replace the settings, but it creates
no tokenizer, uses no memory, and does not look at the settings. `Machine.IsLocal` says this by
comparing what a state does with two handles: `Program.Mirrors` relates programs that are the same
but for the handle.

Given two tokenizers that stand alike, in any two worlds, such programs come to the same outcome
and leave the tokenizers alike, and all else in the worlds has no part in it; each changes no other
tokenizer and no list, and leaves the memory as it is (`Program.Mirrors.relates`). The tokenizers
may differ in whether they trace.
-/

set_option autoImplicit false

namespace LexChain

variable {F M α β ι : Type}

/-! ### Executions on one tokenizer -/

/-- An execution led from the world `w` to `w'` and worked on the tokenizer of `h` only; and one
that worked on the tokenizer of `k`, which stood alike in `v`, did the same and led to `v'`. -/
structure World.Mirrored (h k : Handle) (w v w' v' : World F M) : Prop where
  before : (w.get h).quiet = (v.get k).quiet
  after : (w'.get h).quiet = (v'.get k).quiet
  lt_next : ∀ j, j < w.shelf.next → j < w'.shelf.next
  /-- No other tokenizer has changed. -/
  get_eq : ∀ j, j ≠ h → w'.get j = w.get j
  memory_eq : w'.memory = w.memory
  /-- No list was handed out, and none was emptied. -/
  handed_eq : w'.shelf.handed.length = w.shelf.handed.length
  held_eq : ∀ i, w'.held i = w.held i

namespace World

variable {h k : Handle} {w v w' v' w'' v'' : World F M}

/-- Worlds in which the tokenizers stand alike, with nothing done. -/
theorem mirrored_self (hwv : (w.get h).quiet = (v.get k).quiet) : Mirrored h k w v w v :=
  ⟨hwv, hwv, fun _ => id, fun _ _ => rfl, rfl, rfl, fun _ => rfl⟩

/-- What is mirrored part by part is mirrored as a whole. -/
theorem Mirrored.trans (hfirst : Mirrored h k w v w' v') (hsecond : Mirrored h k w' v' w'' v'') :
    Mirrored h k w v w'' v'' where
  before := hfirst.before
  after := hsecond.after
  lt_next j hj := hsecond.lt_next j (hfirst.lt_next j hj)
  get_eq j hj := (hsecond.get_eq j hj).trans (hfirst.get_eq j hj)
  memory_eq := hsecond.memory_eq.trans hfirst.memory_eq
  handed_eq := hsecond.handed_eq.trans hfirst.handed_eq
  held_eq i := (hsecond.held_eq i).trans (hfirst.held_eq i)

/-- A command does the same to tokenizers that stand alike, reports apart. -/
theorem mirrored_tell (hwv : (w.get h).quiet = (v.get k).quiet) (c : Command F) :
    (w.tell h c).1 = (v.tell k c).1 ∧ Mirrored h k w v (w.tell h c).2 (v.tell k c).2 := by
  -- What a command does to a tokenizer can be told from it without what has to do with reports.
  have happly : c.apply (w.get h).quiet = c.apply (v.get k).quiet := by rw [hwv]
  rw [Tokenizer.apply_quiet, Tokenizer.apply_quiet, Prod.mk.injEq] at happly
  refine ⟨happly.1, hwv, ?_, fun j hj => ?_, fun j hj => w.get_tell_of_ne c hj, rfl, rfl,
    w.held_tell h c⟩
  · rw [get_tell, get_tell]
    exact happly.2
  · rw [next_tell]
    exact Nat.lt_of_lt_of_le hj (Nat.le_max_left ..)

end World

/-- Steps that are the same but for the tokenizer that they work on, which is that of `h` for the
one and that of `k` for the other. -/
inductive Program.MirrorStep (h k : Handle) :
    {α β : Type} → (α → β → Prop) → Program F M α → Program F M β → Prop
  | ask (q : Query) : MirrorStep h k Eq (.ask h q) (.ask k q)
  | tell (c : Command F) : MirrorStep h k Eq (.tell h c) (.tell k c)
  | run (initial : Value F) : MirrorStep h k Eq (.run h initial) (.run k initial)
  | call (f : F) : MirrorStep h k Eq (.call f h) (.call f k)
  | configure (s : Settings F) : MirrorStep h k Eq (.configure s) (.configure s)

/-- Executions that work on one tokenizer each. -/
def Comparison.mirrored (h k : Handle) : Comparison F M where
  steps := Program.MirrorStep h k
  Leads := World.Mirrored h k
  start hwv := World.mirrored_self hwv.after
  trans := .trans
  enter _ hwv := World.mirrored_self hwv.before
  leave _ hwv hin := { hin with before := hwv.before }

/-- Two programs that are the same but for the tokenizer that they work on. They work on no other
one, have no part in the memory, take no lists, and may replace the settings but not look at
them. -/
abbrev Program.Mirrors (h k : Handle) (p q : Program F M α) : Prop :=
  p.Corresponds (Comparison.mirrored h k).toCorrespondence Eq q

/-- From worlds in which the tokenizers stand alike the executions do the same, each on its own
tokenizer. -/
abbrev Execution.Mirrors (h k : Handle) (x y : Execution F M α) : Prop :=
  (Comparison.mirrored h k).Relates Eq x y

/-- What it means that executions mirror each other. -/
theorem Execution.mirrors_iff {h k : Handle} {x y : Execution F M α} :
    x.Mirrors h k y ↔ ∀ w v : World F M, (w.get h).quiet = (v.get k).quiet →
      (x w).1 = (y v).1 ∧ World.Mirrored h k w v (x w).2 (y v).2 := by
  refine Comparison.relates_iff.trans ⟨fun hxy w v hwv => ?_, fun hxy w v hwv => .inr ?_⟩
  · rcases hxy (World.mirrored_self hwv) with ⟨hlax, -⟩ | ⟨houtcome, hworlds⟩
    · exact hlax.elim
    · exact ⟨Results.outcome_eq (fun _ _ => id) houtcome, hworlds⟩
  · obtain ⟨houtcome, hworlds⟩ := hxy w v hwv.before
    rw [houtcome]
    exact ⟨Results.outcome_refl (fun _ => rfl) _, hworlds⟩

/-! ### Local machines -/

/-- What a state does is for the tokenizer that it is given, and the same for each. -/
def Machine.IsLocal (machine : Machine F M) : Prop :=
  ∀ f h k, (machine f h).Mirrors h k (machine f k)

namespace Ini

variable {h k : Handle}

/-- To advance to a stop is to ask and tell one tokenizer. -/
theorem mirrors_advanceTo (stops : List Char) :
    (advanceTo stops h : Program F M Unit).Mirrors h k (advanceTo stops k) := by
  refine .whileTrue (.seq (.step (.ask .hasMore)) fun more => ?_) (.step (.tell .advance))
  refine .ite _ (.seq (.step (.ask .current)) fun c => ?_) (.pure rfl)
  cases c <;> exact .pure rfl

/-- To emit what is pending is mirrored by the same. -/
theorem mirrors_emit (c : Category) :
    (emit h c : Program F M Unit).Mirrors h k (emit k c) := .step (.tell _)

/-- To emit one character is mirrored by the same. -/
theorem mirrors_emitOne (c : Category) :
    (emitOne h c : Program F M Unit).Mirrors h k (emitOne k c) := .step (.tell _)

/-- The states of the lexer for settings files are local. -/
theorem machine_isLocal : (machine : Machine StateId M).IsLocal := by
  intro s h k
  -- Each state is read along its code: a step for each use of the tokenizer, a branch for each
  -- test of a character.
  cases s with
  | line =>
      refine .seq (.step (.ask .current)) fun c => ?_
      cases c with
      | none => exact .pure rfl
      | some c =>
          exact .ite _ (.seq (.step (.tell _)) fun _ => .pure rfl)
            (.ite _ (.pure rfl) (.ite _ (.seq (mirrors_emitOne _) fun _ => .pure rfl) (.pure rfl)))
  | comment =>
      exact .seq (mirrors_advanceTo _) fun _ => .seq (mirrors_emit _) fun _ => .pure rfl
  | sectionName =>
      refine .seq (mirrors_advanceTo _) fun _ => .seq (mirrors_emit _) fun _ =>
        .seq (.step (.ask .current)) fun c => ?_
      exact .ite _ (.seq (mirrors_emitOne _) fun _ => .pure rfl) (.pure rfl)
  | key =>
      refine .seq (mirrors_advanceTo _) fun _ => .seq (mirrors_emit _) fun _ =>
        .seq (.step (.ask .current)) fun c => ?_
      refine .ite _ (.seq (mirrors_emitOne _) fun _ => ?_) (.pure rfl)
      exact .seq (mirrors_advanceTo _) fun _ => .seq (mirrors_emit _) fun _ => .pure rfl

end Ini

/-! ### Chains and programs on one tokenizer -/

variable [Callable F] {h k : Handle}

/-- Chains over tokenizers that stand alike. They find the same text ahead, so they stop at the same
time, and reports make no difference. -/
theorem Chain.mirrored (h k : Handle) :
    (Comparison.mirrored (F := F) (M := M) h k).Chains h k (fun _ _ => True) Eq Eq Eq := by
  refine .of_eq (fun _ => rfl) (fun _ _ _ => trivial) ?_ ?_ ?_ ?_
  · intro w v hwv
    show (w.get h).quiet.hasMore = (v.get k).quiet.hasMore
    rw [hwv.before]
  · exact fun _ _ hwv => (Tokenizer.eq_of_quiet_eq hwv.before).1
  · -- Reports are written to either log or to none, and a mirrored tokenizer is compared
    -- without them.
    intro w v g g' _ hwv
    unfold stop
    dsimp only
    split <;> split <;> exact { hwv with }
  · intro w v g g' s t _ hwv
    unfold arrive
    split <;> split <;> exact { hwv with }

/-- What is known of single steps: each is a step on its tokenizer, or replaces the settings. -/
theorem Comparison.steps_mirrored {l : Filter ι} (h k : Handle) :
    (Comparison.mirrored (F := F) (M := M) h k).Steps l
      (fun f j g j' => f = g ∧ j = h ∧ j' = k) Eq where
  entered := by
    rintro f _ _ _ w v ⟨rfl, rfl, rfl⟩ hwv
    exact { hwv with }
  exec := by
    intro enter enter' n rounds hcalls hrounds α β Q p q hpq
    cases hpq with
    | ask q =>
        refine related_of_forall fun w v hwv => ⟨?_, { hwv with }⟩
        have hanswer : (w.get h).answer q = (v.get k).answer q := by
          rw [← Tokenizer.answer_quiet, hwv.before, Tokenizer.answer_quiet]
        show Option.Rel _ (some ((w.get h).answer q)) (some ((v.get k).answer q))
        rw [hanswer]
        exact Results.outcome_refl (fun _ => rfl) _
    | tell c =>
        refine related_of_forall fun w v hwv => ?_
        obtain ⟨houtcome, hworlds⟩ := World.mirrored_tell hwv.before c
        refine ⟨?_, hworlds⟩
        show Option.Rel _ (some (w.tell h c).1) (some (v.tell k c).1)
        rw [houtcome]
        exact Results.outcome_refl (fun _ => rfl) _
    -- A run names its states by the handle it is given, so it is followed under both.
    | run initial =>
        exact (Chain.mirrored h k).run_of_eq (fun f => hcalls f h f k ⟨rfl, rfl, rfl⟩) hrounds rfl
    | call f => exact hcalls f h f k ⟨rfl, rfl, rfl⟩
    | configure s => exact related_of_ok fun w v hwv => ⟨rfl, { hwv with }⟩

/-- **A local program does the same to tokenizers that stand alike**, on a machine of local
states. -/
theorem Program.Mirrors.relates {machine : Machine F M} (hlocal : machine.IsLocal) (fuel : Nat)
    {p q : Program F M α} (hpq : p.Mirrors h k q) :
    (machine.exec fuel p).Mirrors h k (machine.exec fuel q) := by
  refine (Comparison.steps_mirrored h k).machine_exec ?_ .same hpq
  rintro f j _ j' ⟨rfl, rfl, rfl⟩
  exact hlocal f j j'

end LexChain
