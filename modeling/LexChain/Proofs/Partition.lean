import LexChain.Ini.States
import LexChain.Proofs.Steps
import LexChain.Proofs.Tape

/-!
# `LexChain.Proofs.Partition`: tokens cut the source into pieces

A tokenizer is `Tokenizer.Partitioned` when its tokens cut the source up to the
start into pieces, none of them empty, and the pending text goes on from there to
the cursor. A new tokenizer is, and every public command keeps it so
(`Partitioned.apply`).

A command that assigns the start or the cursor can break this for its own
tokenizer and for no other. `World.Reaches.partitioned` carries the partition
through any number of steps of an execution in which there is no such command,
together with all that happens on the way (`Event.Upholds`): no question fails
and no command but one with a negative amount.

`partitioned_throughout` states both for a whole execution: of any program on any
machine, with chains driven inside chains, and whatever comes of it.
-/

set_option autoImplicit false

namespace LexChain

variable {F M α : Type}

/-! ### Partitioned tokenizers -/

namespace Tokenizer

/-- The tokens are not empty and cover the source up to the start, and the
pending text is what follows up to the cursor. -/
structure Partitioned (t : Tokenizer F) : Prop extends InOrder t where
  lexeme_ne_nil : ∀ k ∈ t.tokens, k.lexeme ≠ []
  covered_tokens : Token.covered t.tokens = t.source.take t.start.toNat
  pending_eq : t.pending = (t.source.take t.position.toNat).drop t.start.toNat

/-- Nothing is covered and nothing pending in a new tokenizer. -/
theorem partitioned_new (source : Text) (traced : Bool) :
    ({ source, traced } : Tokenizer F).Partitioned := by
  have horder := (shows_new (F := F) source traced).inOrder
  refine ⟨horder, ?_, ?_, horder.pending_eq⟩
  · simp [tokens, emissions]
  · simp [tokens, emissions, Token.covered]

/-- For a tokenizer in order the tokens cover the source up to the start when the
text on its tape is the source. -/
theorem InOrder.covered_tokens_iff {t : Tokenizer F} (ht : t.InOrder) :
    Token.covered t.tokens = t.source.take t.start.toNat ↔ t.tape.text = t.source := by
  have hsource := ht.take_append_pending_append_rest
  constructor
  · intro hcovered
    rw [Tape.text, tape, hcovered]
    exact hsource
  · intro htext
    -- Behind the tokens both sides go on with the pending text and the rest.
    have hboth : Token.covered t.tokens ++ (t.pending ++ t.rest)
        = t.source.take t.start.toNat ++ (t.pending ++ t.rest) := by
      rw [← List.append_assoc, ← List.append_assoc, hsource]
      exact htext
    exact List.append_cancel_right hboth

/-- **Public commands keep the partition.** -/
theorem Partitioned.apply {t : Tokenizer F} (ht : t.Partitioned) {c : Command F}
    (hc : c.IsPublic) : (c.apply t).2.Partitioned := by
  have hshows := ht.toInOrder.shows.apply hc
  refine ⟨hshows.inOrder, ?_, ?_, hshows.inOrder.pending_eq⟩
  · rw [hshows.tokens_eq]
    exact Tape.lexeme_ne_nil_apply ht.lexeme_ne_nil c
  · -- The text on the tape was the source before, and no command loses any of it.
    rw [hshows.inOrder.covered_tokens_iff, hshows.tape_eq, Tape.text_apply, c.source_apply]
    exact ht.toInOrder.covered_tokens_iff.mp ht.covered_tokens

end Tokenizer

/-! ### Events of partitioned tokenizers -/

/-- What holds of an event in the life of a partitioned tokenizer: it is
partitioned before and after, its source stays, no question fails, and a command
fails only for a negative amount. -/
def Event.Upholds : Event F → Prop
  | .created _ t | .entered _ _ t => t.Partitioned
  | .asked _ q t => t.Partitioned ∧ ∃ a, t.answer q = .ok a
  | .told _ c t => t.Partitioned ∧ (c.apply t).2.Partitioned ∧ (c.apply t).2.source = t.source ∧
      ∀ e, (c.apply t).1 = .error e ↔
        ∃ amount label, c = .tokenizeNext amount label ∧ amount < 0 ∧ e = .negativeAmount amount
  | .reported _ _ => True

namespace World

/-- A step that assigns neither start nor cursor of a tokenizer keeps it
partitioned. -/
theorem Step.partitioned {w v : World F M} (hs : Step w v) {h : Handle}
    (hw : (w.get h).Partitioned) (hassign : ∀ e ∈ v.since w, ¬e.Assigns h) :
    (v.get h).Partitioned ∧ ∀ e ∈ v.since w, e.handle = h → e.Upholds := by
  -- One case for each kind of step. Only a creation and a command change a tokenizer, and only
  -- an event of a tokenizer in order has to be upheld.
  cases hs with
  | created source =>
      rw [since_of_history_eq (w.history_create source)]
      constructor
      · by_cases hnew : h = (w.create source).1
        · rw [hnew, get_create]
          exact Tokenizer.partitioned_new ..
        · rw [get_create_of_ne w source hnew]
          exact hw
      · intro e he _
        rw [List.mem_singleton.mp he]
        exact Tokenizer.partitioned_new ..
  | entered f k =>
      rw [since_of_history_eq (w.history_note _)]
      refine ⟨hw, fun e he hk => ?_⟩
      obtain rfl := List.mem_singleton.mp he
      rw [← hk] at hw
      exact hw
  | asked k q =>
      rw [since_of_history_eq (w.history_ask k q)]
      refine ⟨hw, fun e he hk => ?_⟩
      obtain rfl := List.mem_singleton.mp he
      rw [← hk] at hw
      exact ⟨hw, hw.answer_isOk q⟩
  | told k c =>
      rw [since_of_history_eq (w.history_tell k c)] at hassign ⊢
      by_cases hk : k = h
      · -- The command is given to this tokenizer, so it is a public one.
        subst hk
        have hc : c.IsPublic := by
          have htold := hassign _ List.mem_cons_self
          simpa [Event.Assigns] using htold
        refine ⟨by rw [get_tell]; exact hw.apply hc, fun e he _ => ?_⟩
        rcases List.mem_cons.mp he with rfl | he
        · exact ⟨hw, hw.apply hc, c.source_apply _, fun _ => hw.apply_eq_error_iff⟩
        · obtain ⟨record, _, rfl⟩ := List.mem_map.mp he
          trivial
      · refine ⟨by rw [get_tell_of_ne w c (Ne.symm hk)]; exact hw, fun e he hh => ?_⟩
        rcases List.mem_cons.mp he with rfl | he
        · exact absurd hh hk
        · obtain ⟨record, _, rfl⟩ := List.mem_map.mp he
          trivial
  -- A report belongs to the command or the link that wrote it, so nothing is asked of it alone.
  | reported k hrecord =>
      rw [since_of_history_eq (w.history_report k _)]
      refine ⟨hw, fun e he _ => ?_⟩
      rw [List.mem_singleton.mp he]
      trivial
  | @listed shelf hshelf =>
      have hget : shelf.get h = w.get h := by rw [Shelf.get, hshelf, World.get, Shelf.get]
      show (shelf.get h).Partitioned ∧ ∀ e ∈ w.since w, e.handle = h → e.Upholds
      rw [hget]
      exact ⟨hw, by simp⟩
  | configured s =>
      show (w.get h).Partitioned ∧ ∀ e ∈ w.since w, e.handle = h → e.Upholds
      exact ⟨hw, by simp⟩
  | remembered m =>
      show (w.get h).Partitioned ∧ ∀ e ∈ w.since w, e.handle = h → e.Upholds
      exact ⟨hw, by simp⟩

/-- Any number of steps keep the partition, and each of their events upholds it. -/
theorem Reaches.partitioned {w v : World F M} (hr : w.Reaches v) {h : Handle}
    (hw : (w.get h).Partitioned) (hassign : ∀ e ∈ v.since w, ¬e.Assigns h) :
    (v.get h).Partitioned ∧ ∀ e ∈ v.since w, e.handle = h → e.Upholds := by
  induction hr with
  | refl => exact ⟨hw, by simp⟩
  | tail hu hs ih =>
      -- The events of the way split at the last step, so the hypothesis and the claim do as
      -- well.
      rw [Reaches.since_append hu (.single hs)] at hassign ⊢
      obtain ⟨hget, hbefore⟩ := ih fun e he => hassign e (List.mem_append_left _ he)
      obtain ⟨hget', hafter⟩ := hs.partitioned hget fun e he =>
        hassign e (List.mem_append_right _ he)
      refine ⟨hget', fun e he hh => ?_⟩
      rcases List.mem_append.mp he with he | he
      · exact hbefore e he hh
      · exact hafter e he hh

/-- A refused amount leaves all tokenizers and all records as they are. -/
theorem tell_of_neg (w : World F M) (h : Handle) {amount : Int} (hamount : amount < 0)
    (label : Value F) :
    (w.tell h (.tokenizeNext amount label)).1 = .error (.negativeAmount amount) ∧
      (w.tell h (.tokenizeNext amount label)).2.records = w.records ∧
      ∀ k, (w.tell h (.tokenizeNext amount label)).2.get k = w.get k := by
  have happly : (Command.tokenizeNext amount label).apply (w.get h)
      = (.error (.negativeAmount amount), w.get h) :=
    Tokenizer.tokenizeNext_of_neg _ hamount label
  refine ⟨congrArg Prod.fst happly, ?_, fun k => ?_⟩
  · have hreports : (w.get h).reportsSince (w.get h) = [] := by
      simp [Tokenizer.reportsSince]
    -- The command is an event, but the tokenizer that it left has no new tokens to report.
    rw [records, history_tell, happly, hreports]
    simp [records, Event.record?]
  · by_cases hk : k = h
    · rw [hk, get_tell, happly]
    · rw [get_tell_of_ne w _ hk]

end World

/-- **The partition holds throughout.** Take a tokenizer whose start and cursor
were never assigned in an execution that began with no tokenizer at all. It is
partitioned in the world that the execution left and at every event in its life,
and of all that was done with it only a negative amount failed. Such an amount
changes no tokenizer and reports nothing, in any world. -/
theorem partitioned_throughout [Callable F] (machine : Machine F M) (fuel : Nat)
    (p : Program F M α) (settings : Settings F) (memory : M) (h : Handle)
    (hassign : ∀ e ∈ (machine.exec fuel p { settings, memory }).2.history, ¬e.Assigns h) :
    ((machine.exec fuel p { settings, memory }).2.get h).Partitioned ∧
      (∀ e ∈ (machine.exec fuel p { settings, memory }).2.history, e.handle = h → e.Upholds) ∧
      ∀ (w : World F M) (amount : Int) (label : Value F), amount < 0 →
        (w.tell h (.tokenizeNext amount label)).1 = .error (.negativeAmount amount) ∧
          (w.tell h (.tokenizeNext amount label)).2.records = w.records ∧
          ∀ k, (w.tell h (.tokenizeNext amount label)).2.get k = w.get k := by
  have hr := machine.exec_reaches fuel p { settings, memory }
  have hsince : (machine.exec fuel p { settings, memory }).2.since { settings, memory }
      = (machine.exec fuel p { settings, memory }).2.history := rfl
  have hboth := hr.partitioned (h := h) (Tokenizer.partitioned_new [] false)
    (by rwa [hsince])
  rw [hsince] at hboth
  exact ⟨hboth.1, hboth.2, fun w amount label hamount => w.tell_of_neg h hamount label⟩

/-- A lexer for two lines that looks ahead, asks for a negative amount and goes on,
and drives the settings-file lexer over the same tokenizer, whose run then ends
with a fault. -/
theorem partitioned_throughout_two_lines :
    let machine : Machine Ini.StateId Unit := fun s h => match s with
      | .key => do
        Program.tell h .advance
        let _ ← Program.attempt (Program.tell h (.tokenizeNext (-1) .none))
        let _ ← Program.ask h .nextNonBlank
        let _ ← Program.run h (Ini.handOver id .line)
        Program.fail (.raised .value "no key")
      | s => Ini.body id s h
    let p : Program Ini.StateId Unit Unit := do
      let h ← Program.create "a = b\n; c".toList
      let _ ← Program.attempt (Program.run h (Ini.handOver id .key))
      Program.tell h (.tokenizeNext 5 .text)
    (∀ e ∈ (machine.exec 20 p { settings := .default, memory := () }).2.history,
        ¬e.Assigns 0) ∧
      ((machine.exec 20 p { settings := .default, memory := () }).2.get 0).Partitioned := by
  intro machine p
  have hassign : ∀ e ∈ (machine.exec 20 p { settings := .default, memory := () }).2.history,
      ¬e.Assigns 0 := by decide +kernel
  exact ⟨hassign, (partitioned_throughout machine 20 p .default () 0 hassign).1⟩

end LexChain
