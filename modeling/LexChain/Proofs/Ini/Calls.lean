import LexChain.Ini.Lex
import LexChain.Proofs.Carries

/-!
# `LexChain.Proofs.Ini.Calls`: the lexer for settings files on a tape

The four states work on the text around the cursor alone, so each call of one is
a function `call` on tapes (`carries_body`), and so is a whole chain of calls
(`carries_run`), wherever it starts and whatever is pending there. The chain is
`drive`: calls in a row until no text is left.

That `drive` comes to its end is the argument that the lexer does. A call may pass
no character, such as one of `line` at a semicolon, but of any two calls in a row
one passes a character. `turns` counts every character twice and a call that
passes none once, and `turns_call_lt` says that this goes down with every call.
-/

set_option autoImplicit false

namespace LexChain.Ini

variable {F M : Type}

/-! ### Calls -/

/-- The text up to one of the given characters emitted under a category, together
with what was pending. -/
def readTo (stops : List Char) (c : Category) (t : Tape F) : Tape F :=
  (t.passWhile (!stops.contains ·)).flush (.category c)

/-- A character emitted under a category. What was pending comes first, as text. -/
def readOne (c : Category) (t : Tape F) : Tape F :=
  t.apply (.tokenizeNext 1 (.category c))

/-- What a call of a state makes of a tape with text left: the state that it hands
over to, and the tape then. -/
def call : StateId → Tape F → StateId × Tape F
  | .line, t =>
    match t.rest with
    | [] => (.line, t)
    | c :: _ =>
      if Text.isBlank c then (.line, t.apply .consumeBlanks)
      else if c = ';' ∨ c = '#' then (.comment, t)
      else if c = '[' then (.sectionName, readOne .bracket t)
      else (.key, t)
  | .comment, t => (.line, readTo ['\n'] .comment t)
  | .sectionName, t =>
    let named := readTo [']', '\n'] .identifier t
    (.line, if named.rest.head? = some ']' then readOne .bracket named else named)
  | .key, t =>
    let keyed := readTo ['=', '\n'] .key t
    (.line, if keyed.rest.head? = some '=' then readTo ['\n'] .string (readOne .operator keyed)
      else keyed)

/-- To read up to a stop leaves the text from the stop on. -/
theorem rest_readTo (stops : List Char) (c : Category) (t : Tape F) :
    (readTo stops c t).rest = t.rest.dropWhile (!stops.contains ·) := by
  rw [readTo, Tape.passWhile_eq]
  rfl

/-- To read one character leaves the others. -/
theorem rest_readOne (c : Category) (t : Tape F) : (readOne c t).rest = t.rest.drop 1 := rfl

/-- To read whitespace leaves what comes behind it. -/
theorem rest_consumeBlanks (t : Tape F) :
    (t.apply .consumeBlanks).rest = t.rest.dropWhile Text.isBlank := by
  simp only [Tape.apply, Tape.passWhile_eq, Tape.flush]

/-- To read up to a stop takes nothing from the text of a tape. -/
theorem text_readTo (stops : List Char) (c : Category) (t : Tape F) :
    (readTo stops c t).text = t.text := by
  simp [readTo, Tape.passWhile]

/-- To read a single character takes nothing from the text of a tape. -/
theorem text_readOne (c : Category) (t : Tape F) : (readOne c t).text = t.text := t.text_apply _

/-- No call loses text. -/
theorem text_call (s : StateId) (t : Tape F) : (call s t).2.text = t.text := by
  cases s with
  | line =>
      simp only [call]
      split
      · rfl
      · split
        · exact t.text_apply _
        · split
          · rfl
          · split
            · exact text_readOne ..
            · rfl
  | comment => exact text_readTo ..
  | sectionName =>
      simp only [call]
      split
      · rw [text_readOne, text_readTo]
      · exact text_readTo ..
  | key =>
      simp only [call]
      split
      · rw [text_readTo, text_readOne, text_readTo]
      · exact text_readTo ..

/-! ### Every other call passes a character -/

/-- Whether a call of a state at a character passes none. -/
def waits : StateId → Char → Bool
  | .line, c => !Text.isBlank c && c != '['
  | _, c => c == '\n'

/-- What a chain may still take: two calls for a character, and one more if the
next call passes none. -/
def turns (s : StateId) (rest : Text) : Nat :=
  2 * rest.length + if rest.head?.any (waits s) then 1 else 0

/-- There are no more than two turns for a character, and one. -/
theorem turns_le (s : StateId) (rest : Text) : turns s rest ≤ 2 * rest.length + 1 := by
  unfold turns
  split <;> omega

/-- A state that waits leaves the text as it is, and the next one does not wait. -/
theorem rest_call_of_waits {s : StateId} {t : Tape F} {c : Char} {r : Text}
    (hrest : t.rest = c :: r) (hwaits : waits s c = true) :
    (call s t).2.rest = t.rest ∧ waits (call s t).1 c = false := by
  have hnewline : Text.isBlank '\n' = true := rfl
  cases s with
  | line =>
      obtain ⟨hblank, hopening⟩ : Text.isBlank c = false ∧ c ≠ '[' := by
        simpa [waits] using hwaits
      -- The next state is `comment` or `key`, which both wait at the end of a line only.
      have hc : c ≠ '\n' := fun h => by simp [h, hnewline] at hblank
      simp only [call, hrest, hblank, hopening]
      by_cases hcomment : c = ';' ∨ c = '#' <;> simp [hcomment, waits, hc, hrest]
  | comment | sectionName | key =>
      -- The next state is `line`, and the end of a line is whitespace.
      obtain rfl : c = '\n' := by simpa [waits] using hwaits
      simp [call, rest_readTo, hrest, waits, hnewline]

/-- A state that does not wait passes the character at the cursor. -/
theorem rest_call_of_not_waits {s : StateId} {t : Tape F} {c : Char} {r : Text}
    (hrest : t.rest = c :: r) (hwaits : waits s c = false) :
    (call s t).2.rest.length ≤ r.length := by
  have hdrop : ∀ p : Char → Bool, (r.dropWhile p).length ≤ r.length :=
    fun p => (List.dropWhile_sublist p).length_le
  -- A state that does not wait passes the character at the cursor, and no state goes back.
  cases s with
  | line =>
      by_cases hblank : Text.isBlank c = true
      · simp only [call, hrest, hblank, if_pos, rest_consumeBlanks, List.dropWhile_cons]
        exact hdrop _
      · obtain rfl : c = '[' := by simpa [waits, hblank] using hwaits
        simp [call, hrest, hblank, rest_readOne]
  | comment =>
      have hc : c ≠ '\n' := by simpa [waits] using hwaits
      simp [call, rest_readTo, hrest, hc, hdrop]
  | sectionName =>
      have hc : c ≠ '\n' := by simpa [waits] using hwaits
      by_cases hclosing : c = ']'
      · simp [call, rest_readTo, rest_readOne, hrest, hclosing]
      · -- The name has at least the character at the cursor.
        have hnamed : (readTo [']', '\n'] .identifier t).rest.length ≤ r.length := by
          simpa [rest_readTo, hrest, hc, hclosing] using hdrop _
        simp only [call]
        split
        · rw [rest_readOne, List.length_drop]
          omega
        · exact hnamed
  | key =>
      have hc : c ≠ '\n' := by simpa [waits] using hwaits
      by_cases hequals : c = '='
      · simpa [call, rest_readTo, rest_readOne, hrest, hequals] using hdrop _
      · -- The key has, and the value after it can only pass more.
        have hkeyed : (readTo ['=', '\n'] .key t).rest.length ≤ r.length := by
          simpa [rest_readTo, hrest, hc, hequals] using hdrop _
        simp only [call]
        split
        · rw [rest_readTo, rest_readOne]
          have hvalue := (List.dropWhile_sublist (!List.contains ['\n'] ·)
            (l := (readTo ['=', '\n'] .key t).rest.drop 1)).length_le
          rw [List.length_drop] at hvalue
          omega
        · exact hkeyed

/-- **Every call counts**: with text left, a call takes one turn at least. -/
theorem turns_call_lt (s : StateId) {t : Tape F} (hrest : t.rest ≠ []) :
    turns (call s t).1 (call s t).2.rest < turns s t.rest := by
  obtain ⟨c, r, hrest⟩ := List.exists_cons_of_ne_nil hrest
  cases hwaits : waits s c with
  | true =>
      obtain ⟨hsame, hnext⟩ := rest_call_of_waits hrest hwaits
      rw [hsame]
      simp [turns, hrest, hwaits, hnext]
  | false =>
      -- A character less is worth two turns, of which the next call may wait for one.
      have hpassed := rest_call_of_not_waits hrest hwaits
      have hle := turns_le (call s t).1 (call s t).2.rest
      have hturns : turns s t.rest = 2 * (r.length + 1) := by simp [turns, hrest, hwaits]
      omega

/-- No call brings text back. -/
theorem length_rest_call_le (s : StateId) {t : Tape F} (hrest : t.rest ≠ []) :
    (call s t).2.rest.length ≤ t.rest.length := by
  obtain ⟨c, r, hrest⟩ := List.exists_cons_of_ne_nil hrest
  cases hwaits : waits s c with
  | true => exact Nat.le_of_eq (congrArg List.length (rest_call_of_waits hrest hwaits).1)
  | false =>
      have hpassed := rest_call_of_not_waits hrest hwaits
      rw [hrest, List.length_cons]
      omega

/-- The tape after a chain of calls from a state on, when no text is left. -/
def drive (s : StateId) (t : Tape F) : Tape F :=
  if t.rest = [] then t else drive (call s t).1 (call s t).2
termination_by turns s t.rest
decreasing_by exact turns_call_lt s (by assumption)

/-- With no text ahead nothing is driven. -/
theorem drive_of_eq_nil (s : StateId) {t : Tape F} (hrest : t.rest = []) : drive s t = t := by
  rw [drive, if_pos hrest]

/-- With some text ahead there is a call, and then the rest. -/
theorem drive_of_ne_nil (s : StateId) {t : Tape F} (hrest : t.rest ≠ []) :
    drive s t = drive (call s t).1 (call s t).2 := by
  rw [drive, if_neg hrest]

/-! ### The states carry it out -/

open Execution (Carries carries_pure)
open Program (carries_bind carries_ite carries_ask_hasMore carries_ask_current carries_tell
  carries_whileTrue)

variable [Callable F] {enter : F → Handle → Execution F M (Value F)} {fuel : Nat}
  {h : Handle} {t : Tape F}

/-- The loop that moves up to a stop passes over the characters in front of it. -/
theorem carries_advanceTo (stops : List Char) (hfuel : t.rest.length < fuel) :
    ((advanceTo stops h : Program F M Unit).exec enter fuel).Carries h t ()
      (t.passWhile (!stops.contains ·)) := by
  have hrun := (List.takeWhile_sublist (!stops.contains ·) (l := t.rest)).length_le
  refine carries_whileTrue (fun t => ?_) (by omega)
  refine carries_bind carries_ask_hasMore ?_
  cases hrest : t.rest with
  | nil => exact carries_pure
  | cons c r =>
      refine carries_bind carries_ask_current ?_
      rw [hrest]
      exact carries_pure

/-- The token up to the cursor is emitted. -/
theorem carries_emit {stops : List Char} {c : Category} :
    ((emit h c : Program F M Unit).exec enter fuel).Carries h
      (t.passWhile (!stops.contains ·)) () (readTo stops c t) :=
  carries_tell trivial (fun _ _ hc => by cases hc)

/-- A single character is emitted. -/
theorem carries_emitOne (c : Category) :
    ((emitOne h c : Program F M Unit).exec enter fuel).Carries h t () (readOne c t) :=
  carries_tell trivial (fun amount label hc => by cases hc; decide)

/-- **A call is carried out on the tape** as `call` says, with fuel for a loop over
all the text that is left. -/
theorem carries_body (embed : StateId → F) (s : StateId) (hrest : t.rest ≠ [])
    (hfuel : t.rest.length < fuel) :
    ((body embed s h : Program F M (Value F)).exec enter fuel).Carries h t
      (handOver embed (call s t).1) (call s t).2 := by
  -- Each body is followed along its code, with what the tape shows at each question.
  cases s with
  | line =>
      obtain ⟨c, r, hc⟩ := List.exists_cons_of_ne_nil hrest
      refine carries_bind carries_ask_current ?_
      simp only [call, hc, List.head?_cons]
      by_cases hblank : Text.isBlank c = true
      · simp only [hblank, if_true]
        exact carries_bind (carries_tell trivial (fun _ _ h => by cases h)) carries_pure
      · by_cases hcomment : c = ';' ∨ c = '#'
        · simp only [hblank, hcomment, if_true]
          exact carries_pure
        · by_cases hopening : c = '['
          · subst hopening
            simp only [hblank, hcomment, if_true]
            exact carries_bind (carries_emitOne .bracket) carries_pure
          · simp only [hblank, hcomment, hopening]
            exact carries_pure
  | comment =>
      exact carries_bind (carries_advanceTo _ hfuel) (carries_bind carries_emit carries_pure)
  | sectionName =>
      refine carries_bind (carries_advanceTo _ hfuel) (carries_bind carries_emit ?_)
      refine carries_bind carries_ask_current (carries_ite ?_ ?_)
      · exact fun _ => carries_bind (carries_emitOne .bracket) carries_pure
      · exact fun _ => carries_pure
  | key =>
      have hle : (readOne .operator (readTo ['=', '\n'] .key t)).rest.length < fuel := by
        have hkeyed :=
          (List.dropWhile_sublist (!List.contains ['=', '\n'] ·) (l := t.rest)).length_le
        rw [rest_readOne, List.length_drop, rest_readTo]
        omega
      refine carries_bind (carries_advanceTo _ hfuel) (carries_bind carries_emit ?_)
      refine carries_bind carries_ask_current (carries_ite ?_ ?_)
      · exact fun _ => carries_bind (carries_emitOne .operator)
          (carries_bind (carries_advanceTo _ hle) (carries_bind carries_emit carries_pure))
      · exact fun _ => carries_pure

/-! ### So does the chain -/

/-- A link of the chain, on whatever machine calls of the states are carried out. -/
theorem carries_link {embed : StateId → F} {s : StateId}
    (hcall : (enter (embed s) h).Carries h t (handOver embed (call s t).1) (call s t).2)
    (settings : Settings F) :
    (Chain.link enter settings h (.of (embed s))).Carries h t
      (some (.of (embed (call s t).1))) (call s t).2 :=
  Chain.carries_link hcall rfl settings

/-- The chain from a state on, with fuel for its turns. -/
theorem carries_follow {embed : StateId → F} {size : Nat}
    (hcall : ∀ (s : StateId) (t : Tape F), t.rest ≠ [] → t.rest.length ≤ size →
      (enter (embed s) h).Carries h t (handOver embed (call s t).1) (call s t).2)
    (settings : Settings F) {n : Nat} (s : StateId) (hsize : t.rest.length ≤ size)
    (hn : turns s t.rest ≤ n) :
    (Chain.follow enter settings h n (some (.of (embed s)))).Carries h t
      (drive s t).tokens (drive s t) := by
  induction n generalizing s t with
  | zero =>
      -- No turns are left only when no text is.
      have hrest : t.rest = [] := by
        unfold turns at hn
        exact List.eq_nil_of_length_eq_zero (by omega)
      rw [drive_of_eq_nil s hrest]
      exact Chain.carries_follow_of_eq_nil hrest settings 0 _
  | succ n ih =>
      by_cases hrest : t.rest = []
      · rw [drive_of_eq_nil s hrest]
        exact Chain.carries_follow_of_eq_nil hrest settings _ _
      · have hturn := turns_call_lt s hrest
        have hle := length_rest_call_le s hrest
        rw [drive_of_ne_nil s hrest]
        exact Chain.carries_follow_of_ne_nil hrest (carries_link (hcall s t hrest hsize) settings)
          (ih (call s t).1 (by omega) (by omega))

/-- A machine on which the callables that `embed` picks do what the states of the
lexer do. -/
def Hosts (machine : Machine F M) (embed : StateId → F) : Prop :=
  ∀ s h, machine (embed s) h = body embed s h

/-- The lexer on its own hosts itself. -/
theorem hosts_machine : Hosts (machine : Machine StateId M) id := fun _ _ => rfl

/-- A call on a machine that hosts the states, when there is fuel for its loops. -/
theorem carries_enter {machine : Machine F M} {embed : StateId → F} (hhosts : Hosts machine embed)
    (s : StateId) (hrest : t.rest ≠ []) (hfuel : t.rest.length + 2 ≤ fuel) :
    (machine.enter fuel (embed s) h).Carries h t (handOver embed (call s t).1) (call s t).2 := by
  -- One unit of fuel goes into the call, and the rest is for the loops in it.
  obtain ⟨n, rfl⟩ : ∃ n, fuel = n + 1 := ⟨fuel - 1, by omega⟩
  refine Machine.carries_enter ?_
  rw [hhosts s h]
  exact carries_body embed s hrest (by omega)

/-- **The whole chain is carried out on the tape**, from any of its states and with
any text pending, when there is fuel for its turns and for its loops. -/
theorem carries_run {machine : Machine F M} {embed : StateId → F} (hhosts : Hosts machine embed)
    (s : StateId) (hturns : turns s t.rest ≤ fuel) (hloops : t.rest.length + 2 ≤ fuel) :
    (machine.exec fuel (.run h (handOver embed s))).Carries h t (drive s t).tokens (drive s t) := by
  have hcall : ∀ (s : StateId) (u : Tape F), u.rest ≠ [] → u.rest.length ≤ t.rest.length →
      (machine.enter fuel (embed s) h).Carries h u (handOver embed (call s u).1) (call s u).2 := by
    intro s u hrest hle
    exact carries_enter hhosts s hrest (by omega)
  exact fun w hw => carries_follow hcall w.settings s (Nat.le_refl _) hturns w hw

end LexChain.Ini
