import LexChain.Ini.States
import LexChain.Proofs.Fuel
import LexChain.Proofs.SingleSteps

/-!
# `LexChain.Proofs.OutOfRange`: cursors anywhere

Start and cursor of a tokenizer can be put at any two integers. Nothing checks them, so what comes
of a cursor before the source or past its end is up to each question and command.
`cursors_fail_before_source` says which of them fail then, and what the others do.

All that can fail is reading the text ahead, and `Tokenizer.ahead_eq` says when: at a position
before the source, even counted back from the end. From any other position one reads character by
character (`Text.reading`), at first from the end of the source if the position is below zero, and
then from the front. A position at or past the end has nothing ahead. So three questions fail
(`Tokenizer.answer_eq_error_iff`) and, of the commands, the one that looks at characters
(`Tokenizer.apply_eq_error_iff`).
-/

set_option autoImplicit false

namespace LexChain

variable {F M : Type}

/-! ### Reading at signed positions -/

namespace Text

/-- The character that a signed position stands for, if there is one. -/
def at? (s : Text) (i : Int) : Option Char := (index? s.length i).bind fun k => s[k]?

/-- The characters at a signed position and at those after it, up to the end. Below zero they come
from the end of the text, and from zero on from its front. -/
def reading (s : Text) (i : Int) : Text :=
  (List.range (s.length - i).toNat).filterMap fun k : Nat => s.at? (i + k)

/-- What one reads first from a position on is the character at it. -/
theorem head?_onward {s r : Text} {i : Int} (hread : s.onward i = some r) (hi : i < s.length) :
    r.head? = s.at? i := by
  unfold onward at hread
  unfold at? index?
  split at hread
  · next hnonneg =>
      obtain rfl := Option.some.inj hread
      rw [if_neg (by omega), if_neg (by omega), List.head?_drop]
      rfl
  · next hneg =>
      split at hread
      · -- Reading starts before the end and wraps round: the head is the character counted from
        -- the end.
        next hback =>
          obtain rfl := Option.some.inj hread
          have hlt : (i + s.length).toNat < s.length := by omega
          rw [if_neg (by omega), if_pos (by omega), List.head?_append, List.head?_drop]
          simp [hlt]
      · cases hread

/-- What one reads is the character at the position, and then what one reads from the next one
on. -/
theorem onward_eq_reading {s r : Text} {i : Int} (hread : s.onward i = some r)
    (hi : i ≤ s.length) : r = s.reading i := by
  have hlength := length_of_onward hread hi
  induction r generalizing i with
  | nil =>
      have hnone : (s.length - i).toNat = 0 := by
        rw [List.length_nil] at hlength
        omega
      rw [reading, hnone]
      rfl
  | cons c r ih =>
      rw [List.length_cons] at hlength
      have hcount : (s.length - i).toNat = (s.length - (i + 1)).toNat + 1 := by omega
      have hfirst : s.at? i = some c := (head?_onward hread (by omega)).symm
      -- The others are as far from the next position as they are from here but for one.
      have hnext : ∀ k : Nat, i + (k + 1 : Nat) = i + 1 + k := by
        intro k
        omega
      rw [reading, hcount, List.range_succ_eq_map,
        List.filterMap_cons_some (b := c) (by simpa using hfirst), List.filterMap_map,
        ih (onward_succ hread) (by omega) (by omega), reading]
      simp only [Function.comp_def, Nat.succ_eq_add_one, hnext]

/-- From the last but one character on. -/
example : reading "abc".toList (-2) = "bcabc".toList := by decide

/-- One never reads more than there is up to the end. -/
theorem length_reading_le (s : Text) (i : Int) : (s.reading i).length ≤ (s.length - i).toNat := by
  simpa [reading] using
    List.length_filterMap_le (fun k : Nat => s.at? (i + k)) (List.range (s.length - i).toNat)

/-- The first character that one reads is the one at the position. -/
theorem head?_reading {s : Text} {i : Int} (hi : -(s.length : Int) ≤ i) :
    (s.reading i).head? = s.at? i := by
  by_cases hlt : i < s.length
  · cases hread : s.onward i with
    | none =>
        have hback := onward_eq_none_iff.mp hread
        omega
    | some r =>
        rw [← onward_eq_reading hread (Int.le_of_lt hlt), head?_onward hread hlt]
  · have hnone : (s.length - i).toNat = 0 := by omega
    have hindex : index? s.length i = none := if_pos (by omega)
    rw [reading, hnone, at?, hindex]
    rfl

/-- A slice is what is left of a front part, whatever its ends. -/
theorem slice_eq (s : Text) (a b : Int) :
    s.slice a b = (s.take (bound s.length b)).drop (bound s.length a) := by
  rw [slice, List.drop_take]

/-- Up to the end of the text a slice is the rest from its first end on. -/
theorem slice_length (s : Text) (a : Int) :
    s.slice a s.length = s.drop (bound s.length a) := by
  rw [slice_eq, bound_of_le (Int.natCast_nonneg _) (Int.le_refl _), Int.toNat_natCast,
    List.take_length]

end Text

/-! ### Questions and commands to a tokenizer with any start and cursor -/

namespace Tokenizer

variable {t : Tokenizer F}

/-- One can read from every position but those before the source, even counted back from its
end. -/
theorem ahead_eq (t : Tokenizer F) (i : Int) :
    t.ahead i =
      if i < -(t.size : Int) then .error (.noCharacter i) else .ok (t.source.reading i) := by
  unfold ahead
  -- Behind the end nothing is read at all, so only a cursor before it can fail.
  by_cases hlt : i < t.size
  · rw [if_pos hlt]
    cases hread : t.source.onward i with
    | none =>
        have hback : i < -(t.size : Int) := Text.onward_eq_none_iff.mp hread
        rw [if_pos hback]
    | some r =>
        have hback : ¬i < -(t.size : Int) := by
          intro hback
          rw [Text.onward_eq_none_iff.mpr hback] at hread
          cases hread
        rw [if_neg hback, ← Text.onward_eq_reading hread (Int.le_of_lt hlt)]
  · have hnone : (t.source.length - i).toNat = 0 := by
      unfold size at hlt
      omega
    rw [if_neg hlt, if_neg (by omega), Text.reading, hnone]
    rfl

/-- Whatever is looked for in the text ahead, the question fails exactly before the source. -/
theorem map_ahead_eq_error_iff {α : Type} {i : Int} {f : Text → α} {e : Fault} :
    (t.ahead i).map f = .error e ↔ i < -(t.size : Int) ∧ e = .noCharacter i := by
  rw [ahead_eq]
  split
  · next hi => simp [Except.map, hi, eq_comm]
  · next hi => simp [Except.map, hi]

/-- **Three questions can fail**, and do exactly when the position that they start at lies before
the source. -/
theorem answer_eq_error_iff {q : Query} {e : Fault} :
    t.answer q = .error e ↔
      (q = .current ∧ t.position < -(t.size : Int) ∧ e = .noCharacter t.position) ∨
        ((q = .next ∨ q = .nextNonBlank) ∧ t.position + 1 < -(t.size : Int) ∧
          e = .noCharacter (t.position + 1)) := by
  cases q with
  | current => simp [answer, current, map_ahead_eq_error_iff]
  | next => simp [answer, next, map_ahead_eq_error_iff]
  | nextNonBlank => simp [answer, nextNonBlank, map_ahead_eq_error_iff]
  | _ => simp [answer]

/-- The run of whitespace at a cursor is passed over unless there is nothing to read there. -/
theorem consumeBlanks_eq (t : Tokenizer F) :
    t.consumeBlanks =
      if t.position < -(t.size : Int) then (.error (.noCharacter t.position), t.tokenize .text)
      else (.ok (), { t.tokenize .text with
        position := t.position + ((t.source.reading t.position).takeWhile Text.isBlank).length
        }.tokenize (.category .whitespace)) := by
  have hahead := (t.tokenize .text).ahead_eq (t.tokenize .text).position
  rw [position_tokenize, size, source_tokenize] at hahead
  unfold size
  by_cases hback : t.position < -(t.source.length : Int)
  · rw [if_pos hback] at hahead ⊢
    simp only [consumeBlanks, position_tokenize, hahead]
  · rw [if_neg hback] at hahead ⊢
    simp only [consumeBlanks, position_tokenize, hahead]

/-- **Two commands can fail**: a negative amount is refused, and the search for whitespace starts
with a question. -/
theorem apply_eq_error_iff {c : Command F} {e : Fault} :
    (c.apply t).1 = .error e ↔
      (∃ amount label, c = .tokenizeNext amount label ∧ amount < 0 ∧ e = .negativeAmount amount) ∨
        (c = .consumeBlanks ∧ t.position < -(t.size : Int) ∧ e = .noCharacter t.position) := by
  cases c with
  | tokenizeNext amount label =>
      by_cases h : amount < 0
      · simp [Command.apply, tokenizeNext, h, eq_comm]
      · simp [Command.apply, tokenizeNext, h]
  | consumeBlanks =>
      rw [Command.apply, consumeBlanks_eq]
      split
      · next h => simp [h, eq_comm]
      · next h => simp [h]
  | _ => simp [Command.apply]

/-- A failing search for whitespace has flushed, and done nothing else. -/
theorem consumeBlanks_of_before (h : t.position < -(t.size : Int)) :
    t.consumeBlanks.2 = t.tokenize .text := by
  rw [consumeBlanks_eq, if_pos h]

/-- Any other one leaves start and cursor together, not behind the cursor and not past the end of
the source, unless the cursor was. -/
theorem consumeBlanks_of_not_before (h : ¬t.position < -(t.size : Int)) :
    t.consumeBlanks.2.start = t.consumeBlanks.2.position ∧
      t.position ≤ t.consumeBlanks.2.position ∧
      t.consumeBlanks.2.position ≤ max t.position t.size := by
  have hrun : ((t.source.reading t.position).takeWhile Text.isBlank).length
      ≤ (t.size - t.position).toNat :=
    Nat.le_trans (List.takeWhile_sublist _).length_le (t.source.length_reading_le t.position)
  rw [consumeBlanks_eq, if_neg h]
  simp only [start_tokenize, position_tokenize, true_and]
  omega

/-- From the source on, even counted back from the end, one finds the character that the position
stands for. -/
theorem current_of_not_before (h : ¬t.position < -(t.size : Int)) :
    t.current = .ok (t.source.at? t.position) := by
  rw [current, ahead_eq, if_neg h, ← Text.head?_reading (Int.not_lt.mp h)]
  rfl

/-- With the next position not before the source, the questions beyond the cursor have answers. -/
theorem next_of_not_before (h : ¬t.position + 1 < -(t.size : Int)) :
    t.next = .ok (t.source.at? (t.position + 1)) ∧
      t.nextNonBlank
        = .ok ((t.source.reading (t.position + 1)).find? (!Text.isBlank ·)) := by
  rw [next, nextNonBlank, ahead_eq, if_neg h, ← Text.head?_reading (Int.not_lt.mp h)]
  exact ⟨rfl, rfl⟩

/-- Past the end the text ahead starts with nothing, not even the empty text. -/
theorem startsWith_iff (t : Tokenizer F) (s : Text) :
    t.startsWith s = true ↔
      t.position ≤ t.size ∧ s <+: t.source.drop (Text.bound t.size t.position) := by
  unfold startsWith size
  rw [Text.slice_length, Bool.and_eq_true, decide_eq_true_eq, List.isPrefixOf_iff_prefix]

/-- A flush emits the pending text whenever start and cursor differ, even if it is empty. -/
theorem tokens_flush (t : Tokenizer F) :
    (t.tokenize .text).tokens
      = t.tokens ++ if t.start = t.position then [] else [⟨t.pending, .text⟩] := by
  split
  · next h => rw [tokenize, if_pos h, List.append_nil]
  · next h => exact tokens_tokenize .text h

end Tokenizer

/-! ### Start and cursor assigned -/

/-- **When a cursor fails.** Put start and cursor anywhere. The questions for the character at the
cursor fail exactly when it lies before the source, even counted back from the end, and those for
what comes after it exactly when the next position does. Of the commands only a negative amount
fails, and the search for whitespace with the cursor before the source. That one has flushed
then, and the cursor is where it was. Otherwise it ends, character by character, and leaves start
and cursor together, not behind the cursor and not past the end unless the cursor was. Answers read
positions below zero from the end of the source, and pull the ends of a range into it. -/
theorem cursors_fail_before_source [Callable F] (machine : Machine F M) (w : World F M) (h : Handle)
    (start position : Int) :
    let t := w.get h
    let u := ((w.tell h (.setStart start)).2.tell h (.setPosition position)).2
    let v := (u.tell h .consumeBlanks).2
    (∀ q e, (u.ask h q).1 = .error e ↔
      (q = .current ∧ position < -(t.size : Int) ∧ e = .noCharacter position) ∨
        ((q = .next ∨ q = .nextNonBlank) ∧ position + 1 < -(t.size : Int) ∧
          e = .noCharacter (position + 1))) ∧
    (∀ c e, (u.tell h c).1 = .error e ↔
      (∃ amount label, c = .tokenizeNext amount label ∧ amount < 0 ∧ e = .negativeAmount amount) ∨
        (c = .consumeBlanks ∧ position < -(t.size : Int) ∧ e = .noCharacter position)) ∧
    (position < -(t.size : Int) →
      (v.get h).tokens = t.tokens ++
          (if start = position then [] else [⟨t.source.slice start position, .text⟩]) ∧
        (v.get h).start = position ∧ (v.get h).position = position) ∧
    (-(t.size : Int) ≤ position →
      (v.get h).start = (v.get h).position ∧ position ≤ (v.get h).position ∧
        (v.get h).position ≤ max position t.size) ∧
    (∃ x, machine.Ends (do
          Program.tell h (.tokenize .text)
          Program.whileTrue (Program.atBlank h) (Program.tell h .advance)
          Program.tell h (.tokenize (.category .whitespace))) u (u.tell h .consumeBlanks).1 x ∧
        v.Agrees x) ∧
    (-(t.size : Int) ≤ position → (u.ask h .current).1 = .ok (t.source.at? position)) ∧
    (-(t.size : Int) ≤ position + 1 →
      (u.ask h .next).1 = .ok (t.source.at? (position + 1)) ∧
        (u.ask h .nextNonBlank).1
          = .ok ((t.source.reading (position + 1)).find? (!Text.isBlank ·))) ∧
    (u.ask h .hasMore).1 = .ok (decide (position < t.size)) ∧
    (u.ask h .pending).1
      = .ok ((t.source.take (Text.bound t.size position)).drop (Text.bound t.size start)) ∧
    ∀ s, (u.ask h (.startsWith s)).1 = .ok true ↔
      position ≤ t.size ∧ s <+: t.source.drop (Text.bound t.size position) := by
  intro t u v
  have hu : u.get h = { t with start, position } := by
    rw [World.get_tell, World.get_tell]
    rfl
  have hanswer : ∀ q, (u.ask h q).1 = ({ t with start, position } : Tokenizer F).answer q :=
    fun q => congrArg (·.answer q) hu
  have hcommand : ∀ c, (u.tell h c).1 = (c.apply { t with start, position }).1 :=
    fun c => congrArg (fun t => (c.apply t).1) hu
  have hv : v.get h = ({ t with start, position } : Tokenizer F).consumeBlanks.2 := by
    rw [← hu]
    exact u.get_tell h _
  -- From here on it is a question about a tokenizer with any two cursors.
  simp only [hanswer, hcommand, hv]
  refine ⟨fun q e => Tokenizer.answer_eq_error_iff, fun c e => Tokenizer.apply_eq_error_iff,
    fun hbefore => ?_, fun hback => Tokenizer.consumeBlanks_of_not_before (Int.not_lt.mpr hback),
    ?_, fun hback => Tokenizer.current_of_not_before (Int.not_lt.mpr hback),
    fun hback => Tokenizer.next_of_not_before (Int.not_lt.mpr hback), rfl, ?_, fun s => ?_⟩
  · rw [Tokenizer.consumeBlanks_of_before hbefore]
    exact ⟨Tokenizer.tokens_flush _, Tokenizer.start_tokenize .., Tokenizer.position_tokenize ..⟩
  · obtain ⟨x, hagrees, least, hexec⟩ := Command.exec_inSteps_consumeBlanks u h
    exact ⟨x, ⟨least, hcommand _ ▸ hexec (machine.enter least) least (Nat.le_refl _)⟩, hagrees⟩
  · exact congrArg Except.ok (Text.slice_eq ..)
  · rw [Tokenizer.answer, Except.ok.injEq]
    exact Tokenizer.startsWith_iff _ s

/-- A cursor before the source, where the flush emits an empty token, and one on its last character,
from which whitespace goes on at its front. -/
theorem cursors_fail_before_source_wrapped :
    let machine : Machine Ini.StateId Unit := fun s _ => return .callable s
    let new : World Ini.StateId Unit := { memory := () }
    let w := (new.create " a ".toList).2
    let u := fun start position : Int =>
      ((w.tell 0 (.setStart start)).2.tell 0 (.setPosition position)).2
    ((u 1 (-4)).tell 0 .consumeBlanks).1 = .error (.noCharacter (-4)) ∧
      (((u 1 (-4)).tell 0 .consumeBlanks).2.get 0).tokens = [⟨[], .text⟩] ∧
      ((u 0 (-1)).ask 0 .current).1 = .ok (some ' ') ∧
      ∃ x, machine.Ends (do
          Program.tell 0 (.tokenize .text)
          Program.whileTrue (Program.atBlank 0) (Program.tell 0 .advance)
          Program.tell 0 (.tokenize (.category .whitespace))) (u 0 (-1)) (.ok ()) x ∧
        (x.get 0).start = 1 ∧ (x.get 0).position = 1 := by
  intro machine new w u
  obtain ⟨-, hfails, hleft, -⟩ := cursors_fail_before_source machine w 0 1 (-4)
  obtain ⟨-, -, -, -, ⟨x, hends, hagrees⟩, hcurrent, -⟩ :=
    cursors_fail_before_source machine w 0 0 (-1)
  refine ⟨(hfails _ _).mpr (.inr ⟨rfl, by decide, rfl⟩), (hleft (by decide)).1,
    hcurrent (by decide), x, hends, ?_, ?_⟩
  · rw [hagrees.get_eq]
    decide
  · rw [hagrees.get_eq]
    decide

end LexChain
