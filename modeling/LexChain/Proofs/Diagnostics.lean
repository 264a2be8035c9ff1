import LexChain.Ini.States
import LexChain.Proofs.Comparison

/-!
# `LexChain.Proofs.Diagnostics`: settings only control what is reported

Two executions that differ in nothing but settings do the same. The settings in
force may differ from the beginning on, and wherever one of the programs replaces
them the other one may replace them by others. `Program.Alike` relates such
programs; none of them looks at the settings.

The worlds of two such executions differ in what has to do with reports:
the settings, which tokenizers trace, and the records. `World.quiet` takes all
this out of a world, and the worlds stay equal without it: this is the comparison of
executions in question here (`Comparison.quietly`).
What is left has everything else in it: the tokenizers, the lists of tokens, the memory, and
the history with its entries and answers. `settings_only_control_reports` lists them.
-/

set_option autoImplicit false

namespace LexChain

variable {F M α β σ : Type}

/-! ### Worlds without what has to do with reports -/

/-- The tokenizer as one that traces nothing and never has. -/
def Tokenizer.quiet (t : Tokenizer F) : Tokenizer F := { t with traced := false, written := [] }

/-- The event as it would be if nothing were reported. -/
def Event.quiet? : Event F → Option (Event F)
  | created h t => some (.created h t.quiet)
  | entered f h t => some (.entered f h t.quiet)
  | asked h q t => some (.asked h q t.quiet)
  | told h c t => some (.told h c t.quiet)
  | reported _ _ => none

/-- The shelf with all its tokenizers quiet. -/
def Shelf.quiet (s : Shelf F) : Shelf F := { s with toList := s.toList.map Tokenizer.quiet }

/-- The world without settings of its own, tracing tokenizers and records. -/
def World.quiet (w : World F M) : World F M where
  shelf := w.shelf.quiet
  memory := w.memory
  journal := w.journal.filterMap Event.quiet?

namespace Tokenizer

/-- Whether a tokenizer traces has no part in its answers. -/
theorem answer_quiet (t : Tokenizer F) (q : Query) : t.quiet.answer q = t.answer q := by
  cases q <;> rfl

/-- A quiet tokenizer emits the same token, without a record of it. -/
theorem tokenize_quiet (t : Tokenizer F) (label : Value F) :
    t.quiet.tokenize label = (t.tokenize label).quiet := by
  unfold tokenize
  by_cases h : t.start = t.position
  · rw [if_pos h]
    exact if_pos h
  · rw [if_neg h]
    exact if_neg h

/-- Tokens and cursors can be told from a quiet tokenizer. -/
theorem eq_of_quiet_eq {t u : Tokenizer F} (htu : t.quiet = u.quiet) :
    t.tokens = u.tokens ∧ t.start = u.start ∧ t.position = u.position :=
  ⟨show t.quiet.tokens = u.quiet.tokens from congrArg tokens htu,
    show t.quiet.start = u.quiet.start from congrArg start htu,
    show t.quiet.position = u.quiet.position from congrArg position htu⟩

/-- A quiet tokenizer is moved on by a character like the other. -/
theorem advance_quiet (t : Tokenizer F) : t.quiet.advance = t.advance.quiet := by
  have hmore : t.quiet.hasMore = t.hasMore := rfl
  rw [advance, advance, hmore]
  cases t.hasMore <;> rfl

/-- An amount is refused by both or cut off by both. -/
theorem tokenizeNext_quiet (t : Tokenizer F) (amount : Int) (label : Value F) :
    t.quiet.tokenizeNext amount label
      = ((t.tokenizeNext amount label).1, (t.tokenizeNext amount label).2.quiet) := by
  by_cases h : amount < 0
  · rw [tokenizeNext, tokenizeNext, if_pos h, if_pos h]
  · rw [tokenizeNext, tokenizeNext, if_neg h, if_neg h, tokenize_quiet]
    exact congrArg (Prod.mk _) (tokenize_quiet { t.tokenize .text with
      position := min ((t.tokenize .text).position + amount) (t.tokenize .text).size } label)

/-- Whitespace is passed by both, or both fail at it. -/
theorem consumeBlanks_quiet (t : Tokenizer F) :
    t.quiet.consumeBlanks = (t.consumeBlanks.1, t.consumeBlanks.2.quiet) := by
  have hahead : (t.tokenize .text).quiet.ahead (t.tokenize .text).quiet.position
      = (t.tokenize .text).ahead (t.tokenize .text).position := rfl
  rw [consumeBlanks, consumeBlanks, tokenize_quiet, hahead]
  cases (t.tokenize .text).ahead (t.tokenize .text).position with
  | error e => rfl
  | ok rest =>
      exact congrArg (Prod.mk _) (tokenize_quiet { t.tokenize .text with
        position := (t.tokenize .text).position + (rest.takeWhile Text.isBlank).length } _)

/-- A command makes the same of a quiet tokenizer, which stays quiet. -/
theorem apply_quiet (c : Command F) (t : Tokenizer F) :
    c.apply t.quiet = ((c.apply t).1, (c.apply t).2.quiet) := by
  cases c with
  | advance => exact congrArg (Prod.mk _) t.advance_quiet
  | tokenize label => exact congrArg (Prod.mk _) (t.tokenize_quiet label)
  | tokenizeNext amount label => exact t.tokenizeNext_quiet amount label
  | consumeBlanks => exact t.consumeBlanks_quiet
  | setPosition i => rfl
  | setStart i => rfl

end Tokenizer

namespace Shelf

/-- A quiet shelf has the quiet tokenizers. -/
theorem get_quiet (s : Shelf F) (h : Handle) : s.quiet.get h = (s.get h).quiet := by
  show (s.toList.map Tokenizer.quiet).getD h vacant = (s.toList.getD h vacant).quiet
  rw [List.getD_eq_getElem?_getD, List.getD_eq_getElem?_getD, List.getElem?_map]
  cases s.toList[h]? <;> rfl

/-- A quiet shelf has them where the other has its own. -/
theorem put_quiet (s : Shelf F) (h : Handle) (t : Tokenizer F) :
    s.quiet.put h t.quiet = (s.put h t).quiet := by
  -- By the recursion of the placing, which fills up the list with vacant tokenizers on its way.
  have hplace : ∀ us : List (Tokenizer F),
      place (us.map Tokenizer.quiet) h t.quiet = (place us h t).map Tokenizer.quiet := by
    induction h with
    | zero =>
        intro us
        cases us <;> rfl
    | succ h ih =>
        intro us
        cases us with
        | nil => exact congrArg (List.cons vacant) (ih [])
        | cons u us => exact congrArg (List.cons u.quiet) (ih us)
  simp only [put, quiet, hplace s.toList]

/-- What is in a list does not depend on what is traced. -/
theorem items_quiet (s : Shelf F) (r : ListRef) : s.quiet.items r = s.items r := by
  cases r with
  | own h =>
      show (s.quiet.get h).tokens = (s.get h).tokens
      rw [get_quiet]
      rfl
  | copy n => rfl

/-- A quiet shelf hands out the same lists. -/
theorem hold_quiet (s : Shelf F) (h : Handle) : s.quiet.hold h = (s.hold h).quiet := by
  have hitems := s.items_quiet (.own h)
  simp only [hold, hitems]
  rfl

/-- The lists that a quiet shelf handed out have the same in them. -/
theorem held_quiet (s : Shelf F) (k : ListId) : s.quiet.held k = s.held k := by
  have hhanded : s.quiet.handed = s.handed := rfl
  unfold held
  rw [hhanded]
  cases s.handed[k]? with
  | some r => exact s.items_quiet r
  | none => rfl

/-- Emptying a list leaves a quiet shelf quiet. -/
theorem clear_quiet (s : Shelf F) (k : ListId) : s.quiet.clear k = (s.clear k).quiet := by
  have hhanded : s.quiet.handed = s.handed := rfl
  unfold clear
  rw [hhanded]
  cases hr : s.handed[k]? with
  | none => rfl
  | some r =>
      obtain ⟨n, -, rfl⟩ := exists_copy hr
      rfl

end Shelf

namespace World

/-- A quiet world has the quiet tokenizers. -/
theorem get_quiet (w : World F M) (h : Handle) : w.quiet.get h = (w.get h).quiet :=
  w.shelf.get_quiet h

/-- An event is noted unless it is a report. -/
theorem note_quiet (w : World F M) {e e' : Event F} (he : e.quiet? = some e') :
    (w.note e).quiet = w.quiet.note e' := by
  simp [note, quiet, he]

/-- A report leaves no trace. -/
theorem report_quiet (w : World F M) (h : Handle) (record : Record F) :
    (w.report h record).quiet = w.quiet := by
  rw [report, note, quiet, List.filterMap_cons_none rfl]
  rfl

/-- A tokenizer that is created in a quiet world gets the same handle, and becomes quiet. -/
theorem create_quiet (w : World F M) (source : Text) :
    w.quiet.create source = ((w.create source).1, (w.create source).2.quiet) := by
  have hnext : w.quiet.shelf.next = w.shelf.next := List.length_map ..
  simp only [create, hnext]
  refine Prod.ext rfl ?_
  simp only [quiet, ← Shelf.put_quiet]
  rfl

/-- A question has the same answer in the quiet world. -/
theorem ask_quiet (w : World F M) (h : Handle) (q : Query) :
    w.quiet.ask h q = ((w.ask h q).1, (w.ask h q).2.quiet) := by
  rw [ask, ask, get_quiet, Tokenizer.answer_quiet, w.note_quiet rfl]

/-- A command has the same outcome in the quiet world, with nothing reported. -/
theorem tell_quiet (w : World F M) (h : Handle) (c : Command F) :
    w.quiet.tell h c = ((w.tell h c).1, (w.tell h c).2.quiet) := by
  -- Nothing is reported on the left, and on the right the reports are taken out.
  have hreports : ∀ rs : List (Record F),
      (rs.map (Event.reported h)).filterMap Event.quiet? = [] := by
    intro rs
    induction rs with
    | nil => rfl
    | cons r rs ih => exact ih
  simp only [tell, get_quiet, Tokenizer.apply_quiet]
  refine Prod.ext rfl ?_
  simp only [quiet, ← Shelf.put_quiet, List.filterMap_append, List.filterMap_reverse, hreports]
  rfl

/-- A list is handed out by a question, and what is in it has nothing to do with reports. -/
theorem hold_quiet (w : World F M) (h : Handle) :
    w.quiet.hold h = ((w.hold h).1, (w.hold h).2.quiet) := by
  have hshelf := w.shelf.hold_quiet h
  have hask := w.ask_quiet h .tokens
  simp only [hold, hask]
  refine Prod.ext rfl ?_
  show World.mk _ _ _ _ = _
  simp only [quiet]
  exact congrArg (fun s => World.mk s _ _ _) hshelf

/-- The lists that were handed out are those of the quiet world. -/
theorem held_quiet (w : World F M) (k : ListId) : w.quiet.held k = w.held k :=
  w.shelf.held_quiet k

/-- Lists are emptied in the quiet world as in the other. -/
theorem clear_quiet (w : World F M) (k : ListId) : w.quiet.clear k = (w.clear k).quiet :=
  congrArg (fun s => World.mk s _ _ _) (w.shelf.clear_quiet k)

/-- What happened in a quiet world is what happened, the reports apart. -/
theorem history_quiet (w : World F M) :
    w.quiet.history = w.history.filterMap Event.quiet? := by
  simp [history, quiet]

/-- The entries can be told from a quiet world. -/
theorem entries_quiet (w : World F M) : w.quiet.entries = w.entries := by
  have hentry : (fun e : Event F => e.quiet?.bind Event.entry?) = Event.entry? := by
    funext e
    cases e <;> rfl
  rw [entries, history_quiet, List.filterMap_filterMap, hentry]
  rfl

/-- Answers can be read off the quiet history as well. -/
theorem answers_quiet (w : World F M) : w.quiet.answers = w.answers := by
  have hanswer : (fun e : Event F => e.quiet?.bind Event.answer?) = Event.answer? := by
    funext e
    -- Only an answer depends on the tokenizer, and it does not on whether this traces.
    cases e with
    | asked h q t => exact congrArg (fun a => some (h, Sigma.mk q a)) (t.answer_quiet q)
    | _ => rfl
  rw [answers, history_quiet, List.filterMap_filterMap, hanswer]
  rfl

/-- Worlds that are the same when quiet have the same entries. -/
theorem entries_eq_of_quiet_eq {w v : World F M} (hwv : w.quiet = v.quiet) :
    w.entries = v.entries := by
  rw [← entries_quiet, hwv, entries_quiet]

/-- Worlds that are the same when quiet have the same answers. -/
theorem answers_eq_of_quiet_eq {w v : World F M} (hwv : w.quiet = v.quiet) :
    w.answers = v.answers := by
  rw [← answers_quiet, hwv, answers_quiet]

/-- Worlds that are the same when quiet have the same quiet tokenizers. -/
theorem get_quiet_eq {w v : World F M} (hwv : w.quiet = v.quiet) (h : Handle) :
    (w.get h).quiet = (v.get h).quiet := by
  rw [← get_quiet, hwv, get_quiet]

end World

/-! ### Programs that do the same -/

/-- Whether a step neither looks at the settings in force nor replaces them. -/
def Program.IgnoresSettings : {α : Type} → Program F M α → Prop
  | _, .settings | _, .configure _ => False
  | _, _ => True

/-- Steps that are the same, or replace the settings both. -/
inductive Program.AlikeStep :
    {α β : Type} → (α → β → Prop) → Program F M α → Program F M β → Prop
  | same {α : Type} {p : Program F M α} (hstep : p.IsStep) (hp : p.IgnoresSettings) :
      AlikeStep Eq p p
  | configure (s s' : Settings F) : AlikeStep Eq (.configure s) (.configure s')

/-- Executions in worlds that differ in what has to do with reports. Scopes may put any settings in
force, as these are no part of a quiet world. -/
def Comparison.quietly : Comparison F M where
  scopes _ _ := True
  steps := Program.AlikeStep
  Leads w v w' v' := w.quiet = v.quiet ∧ w'.quiet = v'.quiet
  start := fun ⟨_, heq⟩ => ⟨heq, heq⟩
  trans := fun ⟨heq, _⟩ ⟨_, heq'⟩ => ⟨heq, heq'⟩
  enter := fun _ hwv => hwv
  leave := fun _ ⟨heq, _⟩ ⟨_, heq'⟩ => ⟨heq, heq'⟩

open Comparison (quietly)

/-- Two programs that differ in settings alone: wherever one of them replaces the
settings, or runs a part in a scope, the other one does so too, maybe with other
settings. Neither looks at the settings in force. -/
abbrev Program.Alike (p q : Program F M α) : Prop := p.Corresponds quietly.toCorrespondence Eq q

namespace Comparison

variable {ι : Type} {l : Filter ι}

/-- What does in a quiet world just what it does in every other one. -/
theorem quietly_related {x : Execution F M α}
    (hx : ∀ w, x w.quiet = ((x w).1, (x w).2.quiet)) : quietly.Related l Eq x fun _ => x := by
  refine related_of_forall fun w v ⟨hwv, _⟩ => ?_
  have hboth : ((x w).1, (x w).2.quiet) = ((x v).1, (x v).2.quiet) := by
    rw [← hx, ← hx, hwv]
  obtain ⟨houtcome, hworld⟩ := Prod.mk.inj hboth
  rw [houtcome]
  exact ⟨Results.outcome_refl (fun _ => rfl) _, hwv, hworld⟩

end Comparison

namespace Chain

/-- A chain's end is the same under all settings, its warning apart. -/
theorem stop_quiet (settings : Settings F) (h : Handle) (w : World F M) :
    (stop settings h w).2.quiet = w.quiet := by
  unfold stop
  dsimp only
  split
  · exact w.report_quiet h _
  · rfl

variable [Callable F]

/-- A transition is the same in the quiet world, its record apart. -/
theorem arrive_quiet (settings : Settings F) (h : Handle) (source : State F)
    (target : Option (State F)) (w : World F M) :
    (arrive settings h source target w).quiet = w.quiet := by
  unfold arrive
  split
  · exact w.report_quiet h _
  · rfl

/-- Chains go alike under any settings. They find the same text ahead, so they stop at the same
time. -/
theorem quietly (h : Handle) :
    (Comparison.quietly (F := F) (M := M)).Chains h h (fun _ _ => True) Eq Eq Eq := by
  refine .of_eq (fun _ => rfl) (fun _ _ _ => trivial) ?_ ?_ ?_ ?_
  · intro w v ⟨hwv, _⟩
    show (w.get h).quiet.hasMore = (v.get h).quiet.hasMore
    rw [World.get_quiet_eq hwv h]
  · exact fun _ _ ⟨hwv, _⟩ => (Tokenizer.eq_of_quiet_eq (World.get_quiet_eq hwv h)).1
  · -- The reports are written by either side by its own settings, and none is left when the
    -- world is made quiet.
    intro w v g g' _ ⟨hwv, _⟩
    exact ⟨hwv, by rw [stop_quiet, stop_quiet, hwv]⟩
  · intro w v g g' s t _ ⟨hwv, _⟩
    exact ⟨hwv, by rw [arrive_quiet, arrive_quiet, hwv]⟩

end Chain

variable [Callable F]

/-- What is known of single steps: none but those that replace settings has to do with these. -/
theorem Comparison.steps_quietly {ι : Type} {l : Filter ι} :
    (quietly (F := F) (M := M)).Steps l (fun f h g k => f = g ∧ h = k) Eq where
  entered := by
    rintro f _ h _ w v ⟨rfl, rfl⟩ ⟨hwv, _⟩
    refine ⟨hwv, ?_⟩
    rw [w.note_quiet rfl, v.note_quiet rfl, ← World.get_quiet, ← World.get_quiet, hwv]
  exec := by
    intro enter enter' n rounds hcalls hrounds α β Q p q hpq
    cases hpq with
    | configure s s' => exact related_of_ok fun _ _ hwv => ⟨rfl, hwv⟩
    -- A program that is alike does not look at the settings, and everything else is the same in
    -- the quiet world.
    | same hstep hp =>
        cases p with
        | create source => exact quietly_related fun w => by simp [Program.exec, w.create_quiet]
        | ask h q => exact quietly_related fun w => by simp [Program.exec, w.ask_quiet]
        | tell h c => exact quietly_related fun w => by simp [Program.exec, w.tell_quiet]
        | run h initial =>
            exact (Chain.quietly h).run_of_eq (fun f => hcalls f h f h ⟨rfl, rfl⟩) hrounds rfl
        | call f h => exact hcalls f h f h ⟨rfl, rfl⟩
        | hold h => exact quietly_related fun w => by simp [Program.exec, w.hold_quiet]
        | held k => exact quietly_related fun w => by simp [Program.exec, w.held_quiet]
        | clear k => exact quietly_related fun w => by simp [Program.exec, w.clear_quiet]
        | memory => exact quietly_related fun _ => rfl
        | remember m => exact quietly_related fun _ => rfl
        | settings | configure => exact hp.elim
        | _ => exact hstep.elim

/-- **Settings only control what is reported.** Take two machines and two programs
that differ in settings alone, and two worlds that differ in what has to do with
reports. With any amount of fuel the two executions enter the same callables with the
same cursors, get the same answers, and end with the same result, with the same fault,
or not at all; and each tokenizer has the same tokens, start and cursor then, at
whatever moment that is. -/
theorem settings_only_control_reports {machine machine' : Machine F M}
    (hmachine : ∀ f h, (machine f h).Alike (machine' f h)) {p q : Program F M α}
    (hpq : p.Alike q) (fuel : Nat) {w v : World F M} (hwv : w.quiet = v.quiet) :
    (machine.exec fuel p w).1 = (machine'.exec fuel q v).1 ∧
      (machine.exec fuel p w).2.entries = (machine'.exec fuel q v).2.entries ∧
      (machine.exec fuel p w).2.answers = (machine'.exec fuel q v).2.answers ∧
      ∀ h, ((machine.exec fuel p w).2.get h).tokens = ((machine'.exec fuel q v).2.get h).tokens ∧
        ((machine.exec fuel p w).2.get h).start = ((machine'.exec fuel q v).2.get h).start ∧
        ((machine.exec fuel p w).2.get h).position
          = ((machine'.exec fuel q v).2.get h).position := by
  have hrelates : quietly.Relates Eq (machine.exec fuel p) (machine'.exec fuel q) := by
    refine Comparison.steps_quietly.machine_exec ?_ .same hpq
    rintro f h _ _ ⟨rfl, rfl⟩
    exact hmachine f h
  rcases Comparison.relates_iff.mp hrelates (w := w) (v := v) ⟨hwv, hwv⟩ with
    ⟨hlax, -⟩ | ⟨houtcome, -, hworld⟩
  · exact hlax.elim
  · exact ⟨Results.outcome_eq (fun _ _ => id) houtcome, World.entries_eq_of_quiet_eq hworld,
      World.answers_eq_of_quiet_eq hworld,
      fun h => Tokenizer.eq_of_quiet_eq (World.get_quiet_eq hworld h)⟩

/-- A lexer that replaces the settings in every call, and drives another chain in a
scope of its own, which ends with a fault. Under some settings there are reports of
it, under others none. -/
theorem settings_only_control_reports_nested :
    let loud : Settings Ini.StateId := { traceStates := .bool true, traceTokens := .int 1 }
    let still : Settings Ini.StateId := { warnOnDropped := .none }
    let machine (settings : Settings Ini.StateId) : Machine Ini.StateId Unit := fun s h =>
      match s with
      | .line => do
        Program.configure settings
        let _ ← Program.ask h .current
        let _ ← Program.within (.given settings)
          (Program.attempt (Program.run h (Ini.handOver id .key)))
        Program.tell h (.tokenize .text)
        return Ini.handOver id .line
      | _ => do
        Program.tell h .advance
        Program.fail (.raised .value "no key")
    let p : Program Ini.StateId Unit (List (Token Ini.StateId)) :=
      Program.lex "a = b".toList (Ini.handOver id .line)
    ((machine loud).exec 20 p { settings := loud, memory := () }).1
        = ((machine still).exec 20 p { settings := still, memory := () }).1 ∧
      ((machine loud).exec 20 p { settings := loud, memory := () }).2.records.length = 10 ∧
      ((machine still).exec 20 p { settings := still, memory := () }).2.records.length = 0 := by
  intro loud still machine p
  have same : ∀ {α : Type} {q : Program Ini.StateId Unit α}, q.IsStep → q.IgnoresSettings →
      q.Alike q := fun hstep hq => .step (.same hstep hq)
  have hmachine : ∀ f h, (machine loud f h).Alike (machine still f h) := by
    intro f h
    cases f with
    | line =>
        exact .seq (.step (.configure loud still)) fun _ => .seq (same trivial trivial) fun _ =>
          .seq (.within trivial (.caught (fun _ _ => id) (same trivial trivial))) fun _ =>
            .seq (same trivial trivial) fun _ => .pure rfl
    | _ => exact .seq (same trivial trivial) fun _ => .fail rfl
  have hp : p.Alike p := .seq (same trivial trivial) fun h => same trivial trivial
  have hsame := settings_only_control_reports hmachine hp 20
    (w := { settings := loud, memory := () }) (v := { settings := still, memory := () }) rfl
  refine ⟨hsame.1, ?_, ?_⟩
  · decide +kernel
  · decide +kernel

end LexChain
