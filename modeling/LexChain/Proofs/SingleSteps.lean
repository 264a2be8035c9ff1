import LexChain.Proofs.Growth
import LexChain.Proofs.Tape
import Mathlib.Logic.Function.Iterate

/-!
# `LexChain.Proofs.SingleSteps`: compound commands in single steps

Two commands do several things in one go: they flush, move the cursor by many characters and flush
again. `Command.inSteps` spells them out as programs that move the cursor one character at a time,
the one a given number of times, the other as long as there is whitespace at the cursor.

`exec_inSteps_tokenizeNext` and `exec_inSteps_consumeBlanks` say that it comes to the same: the
program has the outcome of the command, and the worlds that the two leave agree in everything but
what was asked and told on the way (`World.Agrees`). The first one needs a cursor that is not past
the end of the source, as the command would move that one back. The second one holds for any two
integers as start and cursor, also when the command fails.

A program may give several commands to one tokenizer, and to no other. `World.Handled` says what a
world has in common then with the one before, so that two such programs agree as soon as they
leave the tokenizer alike (`World.Handled.agrees`).
-/

set_option autoImplicit false

namespace LexChain

variable {F M α β : Type}

/-! ### Single steps -/

namespace Program

/-- A program carried out a number of times. -/
def times (p : Program F M Unit) : Nat → Program F M Unit
  | 0 => .pure ()
  | n + 1 => do
    p
    times p n

/-- Whether the character at the cursor is whitespace. -/
def atBlank (h : Handle) : Program F M Bool := do
  return (← Program.ask h .current).any Text.isBlank

/-- Move the cursor over a character of whitespace, or end. -/
def blankRound (h : Handle) : Program F M (Unit ⊕ Unit) := do
  if ← atBlank h then
    Program.tell h .advance
    return .inl ()
  else
    return .inr ()

end Program

/-- A command in single steps. A negative amount has none, and the command stays as it is. -/
def Command.inSteps (h : Handle) : Command F → Program F M Unit
  | .tokenizeNext amount label =>
    if amount < 0 then Program.tell h (.tokenizeNext amount label)
    else do
      Program.tell h (.tokenize .text)
      Program.times (Program.tell h .advance) amount.toNat
      Program.tell h (.tokenize label)
  | .consumeBlanks => do
    Program.tell h (.tokenize .text)
    Program.whileTrue (Program.atBlank h) (Program.tell h .advance)
    Program.tell h (.tokenize (.category .whitespace))
  | c => Program.tell h c

/-! ### The text ahead, character by character -/

/-- What one reads from the next position on is what one reads from here on, but for the first
character. -/
theorem Text.onward_succ {s r : Text} {c : Char} {i : Int}
    (hread : s.onward i = some (c :: r)) : s.onward (i + 1) = some r := by
  unfold onward at hread ⊢
  by_cases hnonneg : 0 ≤ i
  · rw [if_pos hnonneg] at hread
    have hnext : (i + 1).toNat = i.toNat + 1 := by omega
    rw [if_pos (by omega), hnext, ← List.tail_drop, Option.some.inj hread, List.tail_cons]
  · rw [if_neg hnonneg] at hread
    by_cases hback : -(s.length : Int) ≤ i
    · rw [if_pos hback] at hread
      -- The tail of the source loses its first character, and the whole source follows it.
      have hne : s.drop (i + s.length).toNat ≠ [] := by
        rw [Ne, List.drop_eq_nil_iff]
        omega
      have hr : r = s.drop ((i + s.length).toNat + 1) ++ s := by
        rw [← List.tail_drop, ← List.tail_append_of_ne_nil hne, Option.some.inj hread,
          List.tail_cons]
      by_cases hlast : 0 ≤ i + 1
      · have hzero : (i + 1).toNat = 0 := by omega
        have hnone : s.drop ((i + s.length).toNat + 1) = [] := List.drop_of_length_le (by omega)
        rw [if_pos hlast, hzero, List.drop_zero, hr, hnone, List.nil_append]
      · have hnext : (i + 1 + s.length).toNat = (i + s.length).toNat + 1 := by omega
        rw [if_neg hlast, if_pos (by omega), hnext, hr]
    · rw [if_neg hback] at hread
      cases hread

namespace Tokenizer

/-- With a character ahead of a position there is at the next one what comes behind it. -/
theorem ahead_succ {t : Tokenizer F} {i : Int} {c : Char} {r : Text}
    (hahead : t.ahead i = .ok (c :: r)) : t.ahead (i + 1) = .ok r := by
  unfold ahead at hahead ⊢
  split at hahead
  · next hi =>
      cases hread : t.source.onward i with
      | none => simp [hread] at hahead
      | some rest =>
          obtain rfl : rest = c :: r := by simpa [hread] using hahead
          by_cases hnext : i + 1 < t.size
          · rw [if_pos hnext, Text.onward_succ hread]
          · -- That was the last character, and behind the end nothing is read.
            have hlength := Text.length_of_onward hread (Int.le_of_lt hi)
            rw [List.length_cons] at hlength
            have hr : r.length = 0 := by
              unfold size at hnext
              omega
            rw [if_neg hnext, List.eq_nil_of_length_eq_zero hr]
  · simp at hahead

/-- The character at the cursor is the first one ahead. -/
theorem current_of_ahead {t : Tokenizer F} {r : Text} (hahead : t.ahead t.position = .ok r) :
    t.current = .ok r.head? := by
  rw [current, hahead]
  rfl

/-- Where there is a character ahead the cursor can move. -/
theorem advance_of_ahead {t : Tokenizer F} {c : Char} {r : Text}
    (hahead : t.ahead t.position = .ok (c :: r)) :
    t.advance = { t with position := t.position + 1 } := by
  have hmore : t.hasMore = true := by
    unfold ahead at hahead
    split at hahead
    · simpa [hasMore]
    · simp at hahead
  rw [advance, if_pos hmore]

/-- A cursor that is not past the end and moves a number of times stops at the end. -/
theorem iterate_advance {t : Tokenizer F} (ht : t.position ≤ t.size) (n : Nat) :
    advance^[n] t = { t with position := min (t.position + n) t.size } := by
  induction n with
  | zero =>
      have hsame : min (t.position + (0 : Nat)) (t.size : Int) = t.position := by omega
      rw [hsame]
      rfl
  | succ n ih =>
      rw [Function.iterate_succ_apply', ih, advance]
      -- Once at the end the cursor stays there, which is what the minimum says.
      by_cases hlt : t.position + n < t.size
      · have hmore : ({ t with position := min (t.position + n) t.size } : Tokenizer F).hasMore
            = true := by
          refine decide_eq_true ?_
          show min (t.position + n) (t.size : Int) < t.size
          omega
        rw [if_pos hmore]
        congr 1
        show min (t.position + n) (t.size : Int) + 1 = min (t.position + (n + 1 : Nat)) t.size
        omega
      · have hmore : ¬({ t with position := min (t.position + n) t.size } : Tokenizer F).hasMore
            = true := by
          refine fun hmore => hlt ?_
          have hlt' : min (t.position + n) (t.size : Int) < t.size := of_decide_eq_true hmore
          omega
        rw [if_neg hmore]
        congr 1
        omega

end Tokenizer

/-! ### Commands to one tokenizer -/

namespace World

variable {h : Handle} {w v x : World F M}

/-- An event that is no record is not found among the records. -/
theorem records_note {e : Event F} (he : e.record? = none) (w : World F M) :
    (w.note e).records = w.records := by
  simp [records, he]

/-- What a command writes down comes behind the records before it. -/
theorem records_tell (w : World F M) (h : Handle) (c : Command F) :
    (w.tell h c).2.records
      = w.records ++ (c.apply (w.get h)).2.reportsSince (w.get h) := by
  rw [records, history_tell, List.filterMap_append, List.filterMap_cons_none rfl,
    List.filterMap_map]
  simp [records, Function.comp_def, Event.record?]

/-- A command enters no callable. -/
theorem entries_tell (w : World F M) (h : Handle) (c : Command F) :
    (w.tell h c).2.entries = w.entries := by
  simp [entries, Event.entry?]

/-- Two worlds with the same tokenizers, lists, settings and memory. The same was reported in them,
and the same callables were entered with the same cursors. They may differ in what was asked and
told. -/
structure Agrees (w v : World F M) : Prop where
  get_eq : ∀ h, v.get h = w.get h
  next_eq : v.shelf.next = w.shelf.next
  handed_eq : v.shelf.handed.length = w.shelf.handed.length
  held_eq : ∀ k, v.held k = w.held k
  settings_eq : v.settings = w.settings
  memory_eq : v.memory = w.memory
  records_eq : v.records = w.records
  entries_eq : v.entries = w.entries

/-- A world agrees with itself. -/
theorem Agrees.refl (w : World F M) : w.Agrees w :=
  ⟨fun _ => rfl, rfl, rfl, fun _ => rfl, rfl, rfl, rfl, rfl⟩

/-- Agreement goes both ways. -/
theorem Agrees.symm (hwv : w.Agrees v) : v.Agrees w :=
  ⟨fun h => (hwv.get_eq h).symm, hwv.next_eq.symm, hwv.handed_eq.symm,
    fun k => (hwv.held_eq k).symm, hwv.settings_eq.symm, hwv.memory_eq.symm,
    hwv.records_eq.symm, hwv.entries_eq.symm⟩

/-- Worlds that agree with a third one agree. -/
theorem Agrees.trans (hwv : w.Agrees v) (hvx : v.Agrees x) : w.Agrees x :=
  ⟨fun h => (hvx.get_eq h).trans (hwv.get_eq h), hvx.next_eq.trans hwv.next_eq,
    hvx.handed_eq.trans hwv.handed_eq, fun k => (hvx.held_eq k).trans (hwv.held_eq k),
    hvx.settings_eq.trans hwv.settings_eq, hvx.memory_eq.trans hwv.memory_eq,
    hvx.records_eq.trans hwv.records_eq, hvx.entries_eq.trans hwv.entries_eq⟩

/-- A world after commands to the tokenizer of `h`, one at least, and any questions. -/
structure Handled (h : Handle) (w v : World F M) : Prop where
  precedes : (w.get h).Precedes (v.get h)
  get_of_ne : ∀ k, k ≠ h → v.get k = w.get k
  next_eq : v.shelf.next = max w.shelf.next (h + 1)
  handed_eq : v.shelf.handed.length = w.shelf.handed.length
  held_eq : ∀ k, v.held k = w.held k
  settings_eq : v.settings = w.settings
  memory_eq : v.memory = w.memory
  records_eq : v.records = w.records ++ (v.get h).reportsSince (w.get h)
  entries_eq : v.entries = w.entries

/-- A command handles its tokenizer only. -/
theorem handled_tell (w : World F M) (h : Handle) (c : Command F) : Handled h w (w.tell h c).2 where
  precedes := by
    rw [get_tell]
    exact c.precedes_apply _
  get_of_ne _ hk := w.get_tell_of_ne c hk
  next_eq := w.next_tell h c
  handed_eq := rfl
  held_eq k := w.held_tell h c k
  settings_eq := rfl
  memory_eq := rfl
  records_eq := by rw [records_tell, get_tell]
  entries_eq := w.entries_tell h c

/-- After one more command it is still this tokenizer alone that was handled. -/
theorem Handled.tell (hv : Handled h w v) (c : Command F) : Handled h w (v.tell h c).2 := by
  have hlast := v.handled_tell h c
  refine ⟨hv.precedes.trans hlast.precedes, fun k hk => ?_, ?_, hv.handed_eq,
    fun k => (hlast.held_eq k).trans (hv.held_eq k), hv.settings_eq, hv.memory_eq, ?_,
    hlast.entries_eq.trans hv.entries_eq⟩
  · rw [hlast.get_of_ne k hk, hv.get_of_ne k hk]
  · rw [hlast.next_eq, hv.next_eq, Nat.max_assoc, Nat.max_self]
  · rw [hlast.records_eq, hv.records_eq, List.append_assoc,
      ← hv.precedes.reportsSince_append hlast.precedes]

/-- A question does not count as handling. -/
theorem Handled.ask (hv : Handled h w v) (k : Handle) (q : Query) :
    Handled h w (v.ask k q).2 where
  precedes := hv.precedes
  get_of_ne := hv.get_of_ne
  next_eq := hv.next_eq
  handed_eq := hv.handed_eq
  held_eq := hv.held_eq
  settings_eq := hv.settings_eq
  memory_eq := hv.memory_eq
  records_eq := (records_note rfl v).trans hv.records_eq
  entries_eq := by
    rw [← hv.entries_eq]
    simp [entries, Event.entry?]

/-- **All that counts is how the tokenizer is left.** -/
theorem Handled.agrees (hv : Handled h w v) (hx : Handled h w x) (hget : x.get h = v.get h) :
    v.Agrees x where
  get_eq k := by
    by_cases hk : k = h
    · rw [hk, hget]
    · rw [hv.get_of_ne k hk, hx.get_of_ne k hk]
  next_eq := hx.next_eq.trans hv.next_eq.symm
  handed_eq := hx.handed_eq.trans hv.handed_eq.symm
  held_eq k := (hx.held_eq k).trans (hv.held_eq k).symm
  settings_eq := hx.settings_eq.trans hv.settings_eq.symm
  memory_eq := hx.memory_eq.trans hv.memory_eq.symm
  records_eq := by rw [hv.records_eq, hx.records_eq, hget]
  entries_eq := hx.entries_eq.trans hv.entries_eq.symm

end World

/-! ### The commands and their single steps -/

section Steps

open World (Handled)

variable {h : Handle} {w x : World F M} [Callable F]

namespace Program

/-- A number of single steps. -/
theorem exec_times_advance (hx : Handled h w x) (n : Nat) :
    ∃ y, Handled h w y ∧ y.get h = Tokenizer.advance^[n] (x.get h) ∧
      ∀ (enter : F → Handle → Execution F M (Value F)) (fuel : Nat),
        (times (tell h .advance) n).exec enter fuel x = (some (.ok ()), y) := by
  induction n generalizing x with
  | zero => exact ⟨x, hx, rfl, fun _ _ => rfl⟩
  | succ n ih =>
      obtain ⟨y, hy, hget, hexec⟩ := ih (hx.tell .advance)
      rw [World.get_tell] at hget
      exact ⟨y, hy, hget, hexec⟩

/-- The question for the character at the cursor. -/
theorem exec_ask_current {r : Except Fault (Option Char)} (hcurrent : (x.get h).current = r)
    (enter : F → Handle → Execution F M (Value F)) (fuel : Nat) :
    (ask h .current : Program F M _).exec enter fuel x = (some r, (x.ask h .current).2) :=
  congrArg (fun r => (some r, (x.ask h .current).2)) hcurrent

/-- Where that question has an answer it tells whether there is whitespace. -/
theorem exec_atBlank {o : Option Char} (hcurrent : (x.get h).current = .ok o)
    (enter : F → Handle → Execution F M (Value F)) (fuel : Nat) :
    (atBlank h).exec enter fuel x = (some (.ok (o.any Text.isBlank)), (x.ask h .current).2) :=
  Execution.bind_of_ok (exec_ask_current hcurrent enter fuel) _

/-- A round of the loop that passes over whitespace. -/
theorem exec_blankRound {o : Option Char} (hcurrent : (x.get h).current = .ok o)
    (enter : F → Handle → Execution F M (Value F)) (fuel : Nat) :
    (blankRound h).exec enter fuel x =
      if o.any Text.isBlank then
        (some (.ok (.inl ())), ((x.ask h .current).2.tell h .advance).2)
      else (some (.ok (.inr ())), (x.ask h .current).2) := by
  show ((atBlank h).exec enter fuel).bind _ x = _
  rw [Execution.bind_of_ok (exec_atBlank hcurrent enter fuel)]
  cases o.any Text.isBlank <;> rfl

/-- The loop passes over the run of whitespace at the cursor. It takes a round for each character
of it, and one to end. -/
theorem exec_blanks (hx : Handled h w x) {rest : Text}
    (hahead : (x.get h).ahead (x.get h).position = .ok rest) :
    ∃ y, Handled h w y ∧
      y.get h = { x.get h with
        position := (x.get h).position + (rest.takeWhile Text.isBlank).length } ∧
      ∀ (enter : F → Handle → Execution F M (Value F)) (fuel n : Nat), rest.length < n →
        Execution.iterate (fun _ => (blankRound h).exec enter fuel) n () x
          = (some (.ok ()), y) := by
  induction rest generalizing x with
  | nil =>
      refine ⟨(x.ask h .current).2, hx.ask h .current, by simp, fun enter fuel n hn => ?_⟩
      obtain ⟨n, rfl⟩ : ∃ m, n = m + 1 := ⟨n - 1, by omega⟩
      exact Execution.bind_of_ok (exec_blankRound (Tokenizer.current_of_ahead hahead) enter fuel) _
  | cons c r ih =>
      have hround := exec_blankRound (Tokenizer.current_of_ahead hahead)
      cases hc : Text.isBlank c with
      | false =>
          refine ⟨(x.ask h .current).2, hx.ask h .current, by simp [hc], fun enter fuel n hn => ?_⟩
          obtain ⟨n, rfl⟩ : ∃ m, n = m + 1 := ⟨n - 1, by omega⟩
          have hend := hround enter fuel
          simp only [List.head?_cons, Option.any_some, hc] at hend
          exact Execution.bind_of_ok hend _
      | true =>
          -- The cursor moves, and what is ahead of it then is the tail.
          have hmoved : (((x.ask h .current).2.tell h .advance).2.get h)
              = { x.get h with position := (x.get h).position + 1 } := by
            rw [World.get_tell]
            exact Tokenizer.advance_of_ahead hahead
          obtain ⟨y, hy, hget, hexec⟩ := ih ((hx.ask h .current).tell .advance)
            (by rw [hmoved]; exact Tokenizer.ahead_succ hahead)
          refine ⟨y, hy, ?_, fun enter fuel n hn => ?_⟩
          · rw [hget, hmoved]
            simp [hc]
            omega
          · obtain ⟨n, rfl⟩ : ∃ m, n = m + 1 := ⟨n - 1, by omega⟩
            have hgo := hround enter fuel
            simp only [List.head?_cons, Option.any_some, hc, if_true] at hgo
            rw [Execution.iterate_succ, Execution.bind_of_ok hgo]
            exact hexec enter fuel n (by simp at hn; omega)

/-- Where the first question fails the loop does. -/
theorem exec_blanks_of_error {e : Fault} (hcurrent : (x.get h).current = .error e)
    (enter : F → Handle → Execution F M (Value F)) (fuel n : Nat) :
    Execution.iterate (fun _ => (blankRound h).exec enter fuel) (n + 1) () x
      = (some (.error e), (x.ask h .current).2) := by
  have hcondition : (atBlank h).exec enter fuel x = (some (.error e), (x.ask h .current).2) :=
    Execution.bind_of_error (exec_ask_current hcurrent enter fuel) _
  have hround : (blankRound h).exec enter fuel x = (some (.error e), (x.ask h .current).2) :=
    Execution.bind_of_error hcondition _
  exact Execution.bind_of_error hround _

/-- A flush, a part that ends, and another flush. -/
theorem exec_flush_flush {p : Program F M Unit} {y : World F M}
    {enter : F → Handle → Execution F M (Value F)} {fuel : Nat}
    (hp : p.exec enter fuel (w.tell h (.tokenize .text)).2 = (some (.ok ()), y))
    (label : Value F) :
    (do
      tell h (.tokenize .text)
      p
      tell h (.tokenize label) : Program F M Unit).exec enter fuel w
      = (some (.ok ()), (y.tell h (.tokenize label)).2) :=
  Execution.bind_of_ok hp _

end Program

namespace Command

/-- **An amount in single steps.** From a cursor that is not past the end of the source, to flush,
to move the cursor by one as often as the amount says and to flush again does the same as the
command. -/
theorem exec_inSteps_tokenizeNext {amount : Int} (hamount : 0 ≤ amount)
    (hposition : (w.get h).position ≤ (w.get h).size) (label : Value F) :
    ∃ v, (w.tell h (.tokenizeNext amount label)).2.Agrees v ∧
      ∀ (enter : F → Handle → Execution F M (Value F)) (fuel : Nat),
        ((tokenizeNext amount label).inSteps h).exec enter fuel w = (some (.ok ()), v) := by
  obtain ⟨y, hy, hget, hexec⟩ :=
    Program.exec_times_advance (w.handled_tell h (.tokenize .text)) amount.toNat
  -- Flushing does not move the cursor, so the steps move it as far as the amount does, or to
  -- the end.
  have hmoved : y.get h = { (w.get h).tokenize .text with
      position := min ((w.get h).position + amount) (w.get h).size } := by
    rw [hget, World.get_tell]
    refine (Tokenizer.iterate_advance ?_ _).trans ?_
    · simpa [apply, Tokenizer.size] using hposition
    · rw [Int.toNat_of_nonneg hamount]
      simp [apply, Tokenizer.size]
  refine ⟨(y.tell h (.tokenize label)).2,
    (w.handled_tell h _).agrees (hy.tell (.tokenize label)) ?_, fun enter fuel => ?_⟩
  · rw [World.get_tell, World.get_tell, hmoved]
    simp [apply, Tokenizer.tokenizeNext, Tokenizer.size, Int.not_lt.mpr hamount]
  · rw [inSteps, if_neg (Int.not_lt.mpr hamount)]
    exact Program.exec_flush_flush (hexec enter fuel) label

/-- **A run of whitespace in single steps.** To flush, to move the cursor by one as long as there is
whitespace at it and to flush again does the same as the command, wherever start and cursor are.
Both fail or neither does. -/
theorem exec_inSteps_consumeBlanks (w : World F M) (h : Handle) :
    ∃ v, (w.tell h .consumeBlanks).2.Agrees v ∧
      ∃ least, ∀ (enter : F → Handle → Execution F M (Value F)) (fuel : Nat), least ≤ fuel →
        (consumeBlanks.inSteps h).exec enter fuel w = (some (w.tell h .consumeBlanks).1, v) := by
  have hflushed : (w.tell h (.tokenize .text)).2.get h = (w.get h).tokenize .text :=
    w.get_tell h _
  have htell : (w.tell h .consumeBlanks).2.get h = (w.get h).consumeBlanks.2 := w.get_tell h _
  -- The cursor may stand before the source. Then the question for the character fails, in the
  -- loop as in the command, and the text before it has been flushed.
  cases hahead : ((w.get h).tokenize .text).ahead ((w.get h).tokenize .text).position with
  | error e =>
      have hcommand : (w.get h).consumeBlanks = (.error e, (w.get h).tokenize .text) := by
        simp only [Tokenizer.consumeBlanks, hahead]
      have hcurrent : ((w.tell h (.tokenize .text)).2.get h).current = .error e := by
        rw [hflushed, Tokenizer.current, hahead]
        rfl
      refine ⟨((w.tell h (.tokenize .text)).2.ask h .current).2,
        (w.handled_tell h _).agrees ((w.handled_tell h (.tokenize .text)).ask h .current) ?_, 1,
        fun enter fuel hfuel => ?_⟩
      · rw [htell, hcommand]
        exact hflushed
      · obtain ⟨n, rfl⟩ : ∃ m, fuel = m + 1 := ⟨fuel - 1, by omega⟩
        have hloop := Program.exec_blanks_of_error hcurrent enter (n + 1) n
        have houtcome : (w.tell h .consumeBlanks).1 = .error e := congrArg Prod.fst hcommand
        rw [houtcome]
        exact Execution.bind_of_error hloop _
  | ok rest =>
      obtain ⟨y, hy, hget, hexec⟩ :=
        Program.exec_blanks (w.handled_tell h (.tokenize .text)) (hflushed ▸ hahead)
      have hcommand : (w.get h).consumeBlanks
          = (.ok (), (y.get h).tokenize (.category .whitespace)) := by
        rw [hget, hflushed]
        simp only [Tokenizer.consumeBlanks, hahead]
      -- The loop needs a round for each blank, and there are no more blanks than characters.
      refine ⟨(y.tell h (.tokenize (.category .whitespace))).2,
        (w.handled_tell h _).agrees (hy.tell _) ?_, rest.length + 1, fun enter fuel hfuel => ?_⟩
      · rw [htell, hcommand]
        exact y.get_tell h _
      · have houtcome : (w.tell h .consumeBlanks).1 = .ok () := congrArg Prod.fst hcommand
        rw [houtcome]
        have hloop : (Program.whileTrue (Program.atBlank h) (Program.tell h .advance)).exec enter
            fuel (w.tell h (.tokenize .text)).2 = (some (.ok ()), y) :=
          hexec enter fuel fuel (by omega)
        exact Program.exec_flush_flush hloop _

/-- **Every command does the same in single steps**, from a cursor that is not past the end. -/
theorem exec_inSteps (c : Command F) (hposition : (w.get h).position ≤ (w.get h).size) :
    ∃ v, (w.tell h c).2.Agrees v ∧
      ∃ least, ∀ (enter : F → Handle → Execution F M (Value F)) (fuel : Nat), least ≤ fuel →
        (c.inSteps h).exec enter fuel w = (some (w.tell h c).1, v) := by
  cases c with
  | tokenizeNext amount label =>
      by_cases hamount : amount < 0
      · refine ⟨_, .refl _, 0, fun enter fuel _ => ?_⟩
        rw [inSteps, if_pos hamount]
        rfl
      · obtain ⟨v, hagrees, hexec⟩ :=
          exec_inSteps_tokenizeNext (Int.not_lt.mp hamount) hposition label
        refine ⟨v, hagrees, 0, fun enter fuel _ => ?_⟩
        have houtcome : (w.tell h (.tokenizeNext amount label)).1 = .ok () := by
          simp [World.tell, apply, Tokenizer.tokenizeNext, hamount]
        rw [houtcome, hexec]
  | consumeBlanks => exact exec_inSteps_consumeBlanks w h
  -- All other commands are single steps already.
  | _ => exact ⟨_, .refl _, 0, fun _ _ _ => rfl⟩

end Command

end Steps

end LexChain
