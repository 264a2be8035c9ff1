import LexChain.Settings
import LexChain.Tokenizer

/-!
# `LexChain.World`: tokenizers, settings and what happened

A world holds the tokenizers that were created, found by the handles given out
for them, the settings in force, a memory that states share, and a journal of
all that happened, the newest event first: each tokenizer created, each entry
into a callable, each question and each command, and each record reported.

A `Shelf` keeps the tokenizers. Every handle stands for one: where none was put,
for a tokenizer over the empty text. So putting and getting obey
`Shelf.get_put` and `Shelf.get_put_of_ne` for all handles alike.

It keeps lists of tokens as well. A list is an object: whoever has it can read it
and empty it, and one list can be had in two places. A tokenizer has a list of
its own to keep its tokens in, and others are made as copies (`ListRef`). A
tokenizer hands out a new copy each time (`Shelf.hold`), found by its number from
then on. That it is a new copy, and not its own list or one handed out before, is
what a shelf says about the lists handed out (`Shelf.handed_nodup`,
`Shelf.handed_copies`), and what makes `Shelf.toList_clear`, `Shelf.held_put` and
`Shelf.held_clear` true.
-/

set_option autoImplicit false

namespace LexChain

/-- What a tokenizer is found by. -/
abbrev Handle := Nat

/-- What a list of tokens is. -/
inductive ListRef where
  /-- The list that a tokenizer keeps its tokens in. -/
  | own (h : Handle)
  /-- A list that was made as a copy of another one. -/
  | copy (n : Nat)
  deriving DecidableEq, Repr

/-- The number of a list that was handed out. -/
abbrev ListId := Nat

/-- Tokenizers in the order of their handles, and lists of tokens. -/
structure Shelf (F : Type) where
  toList : List (Tokenizer F) := []
  /-- What is in the lists that were made as copies. -/
  copies : List (List (Token F)) := []
  /-- The lists that were handed out, in order. -/
  handed : List ListRef := []
  /-- No list was handed out twice. -/
  handed_nodup : handed.Nodup := by exact List.nodup_nil
  /-- None of them is the list that a tokenizer keeps its tokens in. -/
  handed_copies : ∀ r ∈ handed, ∃ n < copies.length, r = .copy n := by
    exact fun _ hr => nomatch hr

namespace Shelf

variable {F : Type}

/-- A tokenizer over the empty text, as it stands where none was put. -/
def vacant : Tokenizer F := { source := [] }

/-- The tokenizer of a handle. -/
def get (s : Shelf F) (h : Handle) : Tokenizer F := s.toList.getD h vacant

/-- A list with one place filled; places before it are filled up if need be. -/
def place : List (Tokenizer F) → Handle → Tokenizer F → List (Tokenizer F)
  | [], 0, t => [t]
  | [], h + 1, t => vacant :: place [] h t
  | _ :: us, 0, t => t :: us
  | u :: us, h + 1, t => u :: place us h t

/-- The shelf with a tokenizer put at a handle. -/
def put (s : Shelf F) (h : Handle) (t : Tokenizer F) : Shelf F :=
  { s with toList := place s.toList h t }

/-- The next handle to give out. -/
def next (s : Shelf F) : Handle := s.toList.length

/-- What was placed is found at its place. -/
theorem getD_place (us : List (Tokenizer F)) (h : Handle) (t : Tokenizer F) :
    (place us h t).getD h vacant = t := by
  induction h generalizing us with
  | zero => cases us <;> rfl
  | succ h ih =>
      cases us with
      | nil => simpa [place] using ih []
      | cons u us => simpa [place] using ih us

/-- At any other place there is what was there before, if only a vacant tokenizer. -/
theorem getD_place_of_ne (us : List (Tokenizer F)) {h k : Handle} (t : Tokenizer F)
    (hk : k ≠ h) : (place us h t).getD k vacant = us.getD k vacant := by
  -- Induction on the place, along the list, which may have to be filled up.
  induction h generalizing us k with
  | zero =>
      cases k with
      | zero => exact absurd rfl hk
      | succ k => cases us <;> simp [place]
  | succ h ih =>
      cases us with
      | nil =>
          cases k with
          | zero => simp [place]
          | succ k => simpa [place] using ih [] (fun e => hk (by rw [e]))
      | cons u us =>
          cases k with
          | zero => simp [place]
          | succ k => simpa [place] using ih us (fun e => hk (by rw [e]))

/-- A list becomes as long as it takes to have the place. -/
theorem length_place (us : List (Tokenizer F)) (h : Handle) (t : Tokenizer F) :
    (place us h t).length = max us.length (h + 1) := by
  induction h generalizing us with
  | zero => cases us <;> simp [place]
  | succ h ih => cases us <;> simp [place, ih]

/-- Handles up to one that something was put at have been given out. -/
theorem next_put (s : Shelf F) (h : Handle) (t : Tokenizer F) :
    (s.put h t).next = max s.next (h + 1) :=
  length_place s.toList h t

/-- A handle that something was put at has been given out. -/
theorem lt_next_put (s : Shelf F) (h : Handle) (t : Tokenizer F) : h < (s.put h t).next := by
  rw [next_put]
  exact Nat.le_max_right ..

/-- Handles are never taken back. -/
theorem next_le_next_put (s : Shelf F) (h : Handle) (t : Tokenizer F) :
    s.next ≤ (s.put h t).next := by
  rw [next_put]
  exact Nat.le_max_left ..

/-- What was put is found. -/
@[simp] theorem get_put (s : Shelf F) (h : Handle) (t : Tokenizer F) :
    (s.put h t).get h = t := getD_place s.toList h t

/-- Putting changes no other tokenizer. -/
theorem get_put_of_ne (s : Shelf F) {h k : Handle} (t : Tokenizer F) (hk : k ≠ h) :
    (s.put h t).get k = s.get k := getD_place_of_ne s.toList t hk

/-! ### Lists of tokens -/

/-- What is in a list. -/
def items (s : Shelf F) : ListRef → List (Token F)
  | .own h => (s.get h).tokens
  | .copy n => s.copies.getD n []

/-- The shelf with a list emptied. With the list that a tokenizer keeps its
tokens in the tokenizer loses them. -/
def erase (s : Shelf F) : ListRef → Shelf F
  | .own h => s.put h { s.get h with emitted := [] }
  | .copy n => { s with
    copies := s.copies.set n []
    handed_copies := by simpa using s.handed_copies }

/-- If the list that a tokenizer keeps its tokens in were handed out and emptied, the tokenizer
would lose them. -/
theorem tokens_erase_own (s : Shelf F) (h : Handle) : ((s.erase (.own h)).get h).tokens = [] := by
  simp [erase, Tokenizer.tokens, Tokenizer.emissions]

/-- A tokenizer hands out a list of its tokens: a new one, with what is in its
own. -/
def hold (s : Shelf F) (h : Handle) : Shelf F where
  toList := s.toList
  copies := s.copies ++ [s.items (.own h)]
  handed := s.handed ++ [.copy s.copies.length]
  handed_nodup := by
    -- The copies handed out before have smaller numbers.
    have hnew : .copy s.copies.length ∉ s.handed := by
      intro hmem
      obtain ⟨n, hn, heq⟩ := s.handed_copies _ hmem
      cases heq
      exact Nat.lt_irrefl _ hn
    exact List.nodup_append.mpr ⟨s.handed_nodup, by simp, by
      rintro r hr _ hlast rfl
      exact hnew (List.mem_singleton.mp hlast ▸ hr)⟩
  handed_copies := by
    intro r hr
    rw [List.length_append, List.length_singleton]
    rcases List.mem_append.mp hr with hr | hr
    · obtain ⟨n, hn, rfl⟩ := s.handed_copies r hr
      exact ⟨n, Nat.lt_succ_of_lt hn, rfl⟩
    · exact ⟨_, Nat.lt_succ_self _, List.mem_singleton.mp hr⟩

/-- What is in a list that was handed out. -/
def held (s : Shelf F) (k : ListId) : List (Token F) :=
  match s.handed[k]? with
  | some r => s.items r
  | none => []

/-- The shelf with a list emptied that was handed out. -/
def clear (s : Shelf F) (k : ListId) : Shelf F :=
  match s.handed[k]? with
  | some r => s.erase r
  | none => s

/-- A list that was handed out is a copy. -/
theorem exists_copy {s : Shelf F} {k : ListId} {r : ListRef} (hr : s.handed[k]? = some r) :
    ∃ n < s.copies.length, r = .copy n :=
  s.handed_copies r (List.mem_of_getElem? hr)

/-- **Emptying a list changes no tokenizer**, because it is not the list of one. -/
theorem toList_clear (s : Shelf F) (k : ListId) : (s.clear k).toList = s.toList := by
  unfold clear
  split
  · next r hr =>
      obtain ⟨n, -, rfl⟩ := exists_copy hr
      rfl
  · rfl

/-- **What happens to a tokenizer changes no list**, because none is its own. -/
@[simp] theorem held_put (s : Shelf F) (h : Handle) (t : Tokenizer F) (k : ListId) :
    (s.put h t).held k = s.held k := by
  unfold held
  show (match s.handed[k]? with | some r => (s.put h t).items r | none => []) = _
  split
  · next r hr =>
      obtain ⟨n, -, rfl⟩ := exists_copy hr
      rfl
  · rfl

/-- A list that is handed out has the next number. -/
theorem handed_length_hold (s : Shelf F) (h : Handle) :
    (s.hold h).handed.length = s.handed.length + 1 :=
  List.length_append

/-- A list that is handed out has the tokens emitted so far in it. -/
theorem held_hold (s : Shelf F) (h : Handle) :
    (s.hold h).held s.handed.length = (s.get h).tokens := by
  simp [held, hold, items]

/-- The other lists stay as they are. -/
theorem held_hold_of_ne (s : Shelf F) (h : Handle) {k : ListId} (hk : k ≠ s.handed.length) :
    (s.hold h).held k = s.held k := by
  unfold held
  show (match (s.handed ++ [.copy s.copies.length])[k]? with
    | some r => (s.hold h).items r
    | none => []) = _
  rcases Nat.lt_or_gt_of_ne hk with hlt | hgt
  · have hr : s.handed[k]? = some s.handed[k] := List.getElem?_eq_getElem hlt
    obtain ⟨n, hn, hcopy⟩ := exists_copy hr
    rw [List.getElem?_append_left hlt, hr, hcopy]
    simp [items, hold, List.getElem?_append_left hn]
  · -- Behind the new list there is none, neither before nor now.
    have hnone : s.handed[k]? = none := List.getElem?_eq_none (Nat.le_of_lt hgt)
    rw [List.getElem?_eq_none (by simp; omega), hnone]

/-- Emptying a list gives out no other one and takes none back. -/
theorem handed_clear (s : Shelf F) (k : ListId) : (s.clear k).handed = s.handed := by
  unfold clear
  split
  · next r hr =>
      obtain ⟨n, -, rfl⟩ := exists_copy hr
      rfl
  · rfl

/-- A list that was emptied is empty. -/
theorem held_clear (s : Shelf F) (k : ListId) : (s.clear k).held k = [] := by
  unfold held
  rw [handed_clear]
  split
  · next r hr =>
      obtain ⟨n, hn, rfl⟩ := exists_copy hr
      simp [clear, hr, erase, items, hn]
  · rfl

/-- The other lists stay as they are, as no two of them are one. -/
theorem held_clear_of_ne (s : Shelf F) {j k : ListId} (hj : j ≠ k) :
    (s.clear k).held j = s.held j := by
  unfold held
  rw [handed_clear]
  split
  · next r hr =>
      obtain ⟨n, -, rfl⟩ := exists_copy hr
      cases hk : s.handed[k]? with
      | none => simp [clear, hk]
      | some r' =>
          obtain ⟨m, -, rfl⟩ := exists_copy hk
          -- No list object is handed out twice, so the one emptied is not the one looked at.
          have hne : m ≠ n := by
            rintro rfl
            have hlt : j < s.handed.length := (List.getElem?_eq_some_iff.mp hr).1
            exact hj ((List.getElem?_inj hlt s.handed_nodup).mp (hr.trans hk.symm))
          simp [clear, hk, erase, items, List.getElem?_set_ne hne]
  · rfl

end Shelf

/-- Something that happened to a tokenizer, which is given as it stood just
before. What came of it is `Tokenizer.answer` or `Command.apply`. -/
inductive Event (F : Type) where
  | created (h : Handle) (t : Tokenizer F)
  /-- A callable was called with the tokenizer. -/
  | entered (f : F) (h : Handle) (t : Tokenizer F)
  | asked (h : Handle) (q : Query) (t : Tokenizer F)
  | told (h : Handle) (c : Command F) (t : Tokenizer F)
  /-- Something was reported on account of the tokenizer. -/
  | reported (h : Handle) (record : Record F)

namespace Event

variable {F : Type}

/-- The tokenizer that an event concerns. -/
def handle : Event F → Handle
  | created h _ | entered _ h _ | asked h _ _ | told h _ _ | reported h _ => h

/-- Whether an event puts the start or the cursor of a tokenizer anywhere. -/
def Assigns (h : Handle) : Event F → Prop
  | told k c _ => k = h ∧ ¬c.IsPublic
  | _ => False

/-- It can be decided. -/
instance (h : Handle) (e : Event F) : Decidable (e.Assigns h) :=
  match e with
  | told k c _ => inferInstanceAs (Decidable (k = h ∧ ¬c.IsPublic))
  | created _ _ | entered _ _ _ | asked _ _ _ | reported _ _ => .isFalse id

/-- Whether an event is a warning on account of a tokenizer. -/
def Warns (h : Handle) : Event F → Prop
  | reported k record => k = h ∧ record.level = .warning
  | _ => False

/-- This can be decided, too. -/
instance (h : Handle) (e : Event F) : Decidable (e.Warns h) :=
  match e with
  | reported k record => inferInstanceAs (Decidable (k = h ∧ record.level = .warning))
  | created _ _ | entered _ _ _ | asked _ _ _ | told _ _ _ => .isFalse id

/-- The record that an event is, if it is one. -/
def record? : Event F → Option (Record F)
  | reported _ record => some record
  | _ => none

/-- The callable that an event enters and the cursor there, if it is an entry. -/
def entry? : Event F → Option (F × Int)
  | entered f _ t => some (f, t.position)
  | _ => none

/-- The tokenizer and the question that an event puts to it, and the answer, if it
is one. -/
def answer? : Event F → Option (Handle × (q : Query) × Except Fault (q.Answer F))
  | asked h q t => some (h, ⟨q, t.answer q⟩)
  | _ => none

end Event

/-- All that a program can see and change. -/
structure World (F M : Type) where
  shelf : Shelf F := {}
  settings : Settings F := .default
  memory : M
  /-- What happened, the newest first. -/
  journal : List (Event F) := []

namespace World

variable {F M : Type}

/-- The tokenizer of a handle. -/
def get (w : World F M) (h : Handle) : Tokenizer F := w.shelf.get h

/-- What is in a list that was handed out. -/
def held (w : World F M) (k : ListId) : List (Token F) := w.shelf.held k

/-- The world after an event. -/
def note (w : World F M) (e : Event F) : World F M := { w with journal := e :: w.journal }

/-- The world after a report on account of a tokenizer. -/
def report (w : World F M) (h : Handle) (record : Record F) : World F M :=
  w.note (.reported h record)

/-- The events in the order in which they happened. -/
def history (w : World F M) : List (Event F) := w.journal.reverse

/-- The records in the order in which they were reported. -/
def records (w : World F M) : List (Record F) := w.history.filterMap Event.record?

/-- What happened after an earlier world, in order. -/
def since (w before : World F M) : List (Event F) :=
  w.history.drop before.history.length

/-- The entries in the order in which they happened. -/
def entries (w : World F M) : List (F × Int) := w.history.filterMap Event.entry?

/-- The questions in the order in which they were asked, with their answers. -/
def answers (w : World F M) : List (Handle × (q : Query) × Except Fault (q.Answer F)) :=
  w.history.filterMap Event.answer?

/-- A new tokenizer, which traces its tokens if the settings in force say so. -/
def create (w : World F M) (source : Text) : Handle × World F M :=
  let h := w.shelf.next
  let t : Tokenizer F := { source, traced := w.settings.tracesTokens }
  (h, { w with shelf := w.shelf.put h t, journal := .created h t :: w.journal })

/-- The answer to a question, and the world in which it was asked. -/
def ask (w : World F M) (h : Handle) (q : Query) :
    Except Fault (q.Answer F) × World F M :=
  ((w.get h).answer q, w.note (.asked h q (w.get h)))

/-- The outcome of a command, and the world after it. -/
def tell (w : World F M) (h : Handle) (c : Command F) : Except Fault Unit × World F M :=
  let before := w.get h
  let outcome := c.apply before
  let reports := (outcome.2.reportsSince before).map (.reported h)
  (outcome.1, { w with
    shelf := w.shelf.put h outcome.2
    journal := reports.reverse ++ .told h c before :: w.journal })

/-- A list of the tokens emitted so far, by its number. This is a question to the
tokenizer, whose answer is kept. -/
def hold (w : World F M) (h : Handle) : ListId × World F M :=
  let asked := (w.ask h .tokens).2
  (w.shelf.handed.length, { asked with shelf := asked.shelf.hold h })

/-- The world after a list was emptied. -/
def clear (w : World F M) (k : ListId) : World F M := { w with shelf := w.shelf.clear k }

/-- An event that is noted comes last. -/
@[simp] theorem history_note (w : World F M) (e : Event F) :
    (w.note e).history = w.history ++ [e] := by
  simp [history, note]

/-- A report that is written comes last. -/
@[simp] theorem history_report (w : World F M) (h : Handle) (record : Record F) :
    (w.report h record).history = w.history ++ [.reported h record] :=
  w.history_note _

/-- A tokenizer that is created is noted as it is created. -/
@[simp] theorem history_create (w : World F M) (source : Text) :
    (w.create source).2.history = w.history ++
      [.created (w.create source).1 { source, traced := w.settings.tracesTokens }] := by
  simp [history, create]

/-- A question is noted. -/
@[simp] theorem history_ask (w : World F M) (h : Handle) (q : Query) :
    (w.ask h q).2.history = w.history ++ [.asked h q (w.get h)] :=
  w.history_note _

/-- A command is noted, and then come its reports. -/
@[simp] theorem history_tell (w : World F M) (h : Handle) (c : Command F) :
    (w.tell h c).2.history = w.history ++ .told h c (w.get h) ::
      ((c.apply (w.get h)).2.reportsSince (w.get h)).map (.reported h) := by
  simp [history, tell]

/-- What happened since is what the history has more. -/
theorem since_of_history_eq {w before : World F M} {events : List (Event F)}
    (hw : w.history = before.history ++ events) : w.since before = events := by
  rw [since, hw, List.drop_left]

/-- A new tokenizer is found by its handle. -/
theorem get_create (w : World F M) (source : Text) :
    (w.create source).2.get (w.create source).1 =
      { source, traced := w.settings.tracesTokens } :=
  Shelf.get_put ..

/-- Creating a tokenizer changes no other one. -/
theorem get_create_of_ne (w : World F M) (source : Text) {k : Handle}
    (hk : k ≠ (w.create source).1) : (w.create source).2.get k = w.get k :=
  Shelf.get_put_of_ne _ _ hk

/-- A question changes no tokenizer. -/
@[simp] theorem get_ask (w : World F M) (h k : Handle) (q : Query) :
    (w.ask h q).2.get k = w.get k := rfl

/-- A command is carried out on its tokenizer. -/
@[simp] theorem get_tell (w : World F M) (h : Handle) (c : Command F) :
    (w.tell h c).2.get h = (c.apply (w.get h)).2 :=
  Shelf.get_put ..

/-- The creation of a tokenizer changes no list. -/
@[simp] theorem held_create (w : World F M) (source : Text) (k : ListId) :
    (w.create source).2.held k = w.held k :=
  w.shelf.held_put ..

/-- A command to a tokenizer changes no list. -/
@[simp] theorem held_tell (w : World F M) (h : Handle) (c : Command F) (k : ListId) :
    (w.tell h c).2.held k = w.held k :=
  w.shelf.held_put ..

/-- To take a list changes no tokenizer. -/
@[simp] theorem get_hold (w : World F M) (h j : Handle) : (w.hold h).2.get j = w.get j := rfl

/-- To empty a list changes no tokenizer. -/
@[simp] theorem get_clear (w : World F M) (k : ListId) (h : Handle) :
    (w.clear k).get h = w.get h := by
  show (w.shelf.clear k).toList.getD h _ = w.shelf.toList.getD h _
  rw [Shelf.toList_clear]

/-- The handle of a new tokenizer has been given out. -/
theorem next_create (w : World F M) (source : Text) :
    (w.create source).2.shelf.next = max w.shelf.next (w.shelf.next + 1) :=
  Shelf.next_put ..

/-- A handle that a command was given to has been given out. -/
theorem next_tell (w : World F M) (h : Handle) (c : Command F) :
    (w.tell h c).2.shelf.next = max w.shelf.next (h + 1) :=
  Shelf.next_put ..

/-- A command changes no other tokenizer. -/
theorem get_tell_of_ne (w : World F M) {h k : Handle} (c : Command F) (hk : k ≠ h) :
    (w.tell h c).2.get k = w.get k :=
  Shelf.get_put_of_ne _ _ hk

end World

end LexChain
