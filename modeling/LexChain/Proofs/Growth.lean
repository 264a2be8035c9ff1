import LexChain.Proofs.Steps
import Mathlib.Data.List.Chain

/-!
# `LexChain.Proofs.Growth`: what has been emitted stays emitted

A command may add to what a tokenizer has emitted, and takes nothing back; the source stays,
and so does whether tokens are traced, in which case a record of all that was added is written
(`Command.precedes_apply`, `Tokenizer.Precedes.reportsSince_eq`). A public command moves the
cursor forward or not at all (`Command.forward_apply`).

`World.Step.get_cases` says all that a step of an execution can do to one tokenizer: nothing,
or a single command. The moments in a tokenizer's life are the events that concern it and the
end of the execution. A relation that every command establishes between the tokenizer before
and after it therefore holds between one of these moments and the next
(`World.Reaches.isChain_moments`), and between any two of them if it is transitive
(`World.Reaches.pairwise_moments`).
-/

set_option autoImplicit false

namespace LexChain

variable {F M : Type}

/-! ### One command -/

namespace Tokenizer

/-- What a tokenizer writes down of emissions: a record of each if it traces. -/
def recordsOf (t : Tokenizer F) (es : List (Emission F)) : List (Record F) :=
  if t.traced then es.map .emitted else []

/-- One tokenizer can be an earlier stage of the other: what it has emitted comes first among
what the other one has, as do the records written of it, and they agree in the source and in
whether they trace. -/
structure Precedes (t u : Tokenizer F) : Prop where
  grow : ∃ es, u.emissions = t.emissions ++ es ∧ u.reports = t.reports ++ t.recordsOf es
  source_eq : u.source = t.source
  traced_eq : u.traced = t.traced

/-- The cursor of the other one is not behind, if this one's is inside the source. -/
def Forward (t u : Tokenizer F) : Prop :=
  t.position ≤ t.size → t.position ≤ u.position ∧ u.position ≤ u.size

/-- With a character left the cursor is in front of the end. -/
theorem lt_size_of_hasMore {t : Tokenizer F} (hmore : t.hasMore = true) :
    t.position < t.size := by
  simpa [hasMore] using hmore

/-- Emissions that follow others are written down behind them. -/
theorem recordsOf_append (t : Tokenizer F) (es fs : List (Emission F)) :
    t.recordsOf (es ++ fs) = t.recordsOf es ++ t.recordsOf fs := by
  unfold recordsOf
  split <;> simp

/-- To move the cursor or the start adds nothing. -/
theorem precedes_moved (t : Tokenizer F) (i j : Int) :
    t.Precedes { t with start := i, position := j } :=
  ⟨⟨[], (List.append_nil _).symm, by simp [recordsOf, reports]⟩, rfl, rfl⟩

/-- Every tokenizer is a stage of itself. -/
theorem Precedes.refl (t : Tokenizer F) : t.Precedes t := t.precedes_moved t.start t.position

/-- A stage of a stage is a stage. -/
theorem Precedes.trans {t u v : Tokenizer F} (htu : t.Precedes u) (huv : u.Precedes v) :
    t.Precedes v where
  grow := by
    obtain ⟨es, hes, hreports⟩ := htu.grow
    obtain ⟨fs, hfs, hreports'⟩ := huv.grow
    -- The flag is set at the creation, so later tokens are recorded under the same one.
    have hsame : u.recordsOf fs = t.recordsOf fs := by
      unfold recordsOf
      rw [htu.traced_eq]
    refine ⟨es ++ fs, by rw [hfs, hes, List.append_assoc], ?_⟩
    rw [hreports', hreports, hsame, recordsOf_append, List.append_assoc]
  source_eq := huv.source_eq.trans htu.source_eq
  traced_eq := huv.traced_eq.trans htu.traced_eq

/-- What was emitted comes first. -/
theorem Precedes.emissions_grow {t u : Tokenizer F} (htu : t.Precedes u) :
    t.emissions <+: u.emissions := by
  obtain ⟨es, hes, -⟩ := htu.grow
  exact ⟨es, hes.symm⟩

/-- What was written in between is what was emitted in between, if the tokenizer traces. -/
theorem Precedes.reportsSince_eq {t u : Tokenizer F} (htu : t.Precedes u) :
    u.reportsSince t = t.recordsOf (u.emissions.drop t.emissions.length) := by
  obtain ⟨es, hes, hreports⟩ := htu.grow
  rw [reportsSince, hreports, hes, List.drop_left, List.drop_left]

/-- What was written in one stretch is followed by what was in the next. -/
theorem Precedes.reportsSince_append {t u v : Tokenizer F} (htu : t.Precedes u)
    (huv : u.Precedes v) : v.reportsSince t = u.reportsSince t ++ v.reportsSince u := by
  obtain ⟨es, -, hreports⟩ := htu.grow
  obtain ⟨fs, -, hreports'⟩ := huv.grow
  simp only [reportsSince, hreports', hreports, List.append_assoc, List.drop_left]
  rw [← List.append_assoc, List.drop_left]

/-- The tokens of the earlier stage come first. -/
theorem Precedes.tokens_grow {t u : Tokenizer F} (htu : t.Precedes u) :
    t.tokens <+: u.tokens :=
  htu.emissions_grow.map _

/-- To stay is one way to move forward. -/
theorem Forward.refl (t : Tokenizer F) : t.Forward t := fun h => ⟨Int.le_refl _, h⟩

/-- To move forward twice is to move forward. -/
theorem Forward.trans {t u v : Tokenizer F} (htu : t.Forward u) (huv : u.Forward v) :
    t.Forward v := by
  intro ht
  obtain ⟨hle, hu⟩ := htu ht
  obtain ⟨hle', hv⟩ := huv hu
  exact ⟨Int.le_trans hle hle', hv⟩

/-- What an emission adds: the pending text with its range, if the cursor has left the start. -/
def flushed (t : Tokenizer F) (label : Value F) : List (Emission F) :=
  if t.start = t.position then [] else [⟨⟨t.pending, label⟩, t.start, t.position⟩]

/-- A flush emits the text that was pending. -/
theorem emissions_tokenize (t : Tokenizer F) (label : Value F) :
    (t.tokenize label).emissions = t.emissions ++ t.flushed label := by
  unfold tokenize flushed
  split
  · simp
  · simp [emissions]

/-- What an emission writes down. -/
theorem reports_tokenize (t : Tokenizer F) (label : Value F) :
    (t.tokenize label).reports = t.reports ++ t.recordsOf (t.flushed label) := by
  unfold tokenize flushed
  split
  · simp [recordsOf]
  · unfold reports recordsOf
    dsimp only
    split <;> simp

/-- An emission adds to what was emitted. -/
theorem precedes_tokenize (t : Tokenizer F) (label : Value F) : t.Precedes (t.tokenize label) where
  grow := ⟨t.flushed label, t.emissions_tokenize label, t.reports_tokenize label⟩
  source_eq := t.source_tokenize label
  traced_eq := by
    unfold tokenize
    split <;> rfl

/-- An emission does not look at where the cursor was before it was moved. -/
theorem precedes_tokenize_moved (t : Tokenizer F) (i : Int) (label label' : Value F) :
    t.Precedes ({ t.tokenize label with position := i }.tokenize label') := by
  have hmoved := (t.tokenize label).precedes_moved (t.tokenize label).start i
  exact ((t.precedes_tokenize label).trans hmoved).trans (precedes_tokenize _ label')

/-- One of the two things that public commands are made of: the cursor moves ahead inside the
source, or the pending text is emitted. -/
inductive Move : Tokenizer F → Tokenizer F → Prop
  | pass (t : Tokenizer F) {i : Int} (hi : t.position ≤ i) (hi' : i ≤ t.size) :
      Move t { t with position := i }
  | flush (t : Tokenizer F) (label : Value F) : Move t (t.tokenize label)

/-- Any number of moves. -/
abbrev Moves : Tokenizer F → Tokenizer F → Prop := Relation.ReflTransGen Move

/-- A flush, a way ahead and another flush are moves. -/
theorem moves_flush_pass_flush (t : Tokenizer F) (label label' : Value F) {i : Int}
    (hi : (t.tokenize label).position ≤ i) (hi' : i ≤ (t.tokenize label).size) :
    t.Moves ({ t.tokenize label with position := i }.tokenize label') :=
  .tail (.tail (.single (.flush t label)) (.pass _ hi hi')) (.flush _ label')

/-- A move leads forward. -/
theorem Move.forward {t u : Tokenizer F} (hm : t.Move u) : t.Forward u := by
  intro ht
  cases hm with
  | pass hi hi' => exact ⟨hi, hi'⟩
  | flush label => simpa [size] using ht

/-- Any number of moves lead forward. -/
theorem Moves.forward {t u : Tokenizer F} (hm : t.Moves u) : t.Forward u := by
  induction hm with
  | refl => exact .refl t
  | tail _ hlast ih => exact ih.trans hlast.forward

/-- What is read ahead of a cursor inside the source goes up to the end of it. -/
theorem length_of_ahead {t : Tokenizer F} {rest : Text} (ht : t.position ≤ t.size)
    (hahead : t.ahead t.position = .ok rest) : t.position + rest.length = t.size := by
  unfold ahead at hahead
  split at hahead
  · cases honward : t.source.onward t.position with
    | none => simp [honward] at hahead
    | some r =>
        obtain rfl : r = rest := by simpa [honward] using hahead
        have hlength := Text.length_of_onward honward ht
        unfold size
        omega
  · -- Behind the end nothing is read, and by the hypothesis the cursor is not past it.
    next hend =>
      obtain rfl : [] = rest := by simpa using hahead
      simp
      omega

end Tokenizer

/-- **No command takes back what has been emitted**, be it a public one or not. -/
theorem Command.precedes_apply (c : Command F) (t : Tokenizer F) : t.Precedes (c.apply t).2 := by
  -- A command moves a cursor, or flushes once or twice around a move, or fails before it does
  -- anything.
  cases c with
  | advance =>
      unfold apply Tokenizer.advance
      dsimp only
      split
      · exact t.precedes_moved ..
      · exact .refl t
  | tokenize label => exact t.precedes_tokenize label
  | tokenizeNext amount label =>
      simp only [apply, Tokenizer.tokenizeNext]
      split
      · exact .refl t
      · exact t.precedes_tokenize_moved ..
  | consumeBlanks =>
      unfold apply Tokenizer.consumeBlanks
      dsimp only
      split
      · exact t.precedes_tokenize _
      · exact t.precedes_tokenize_moved ..
  | setPosition i => exact t.precedes_moved ..
  | setStart i => exact t.precedes_moved ..

/-- **What a public command does** is made of flushes and of moves of the cursor ahead, as long
as this is not past the end. -/
theorem Command.moves_apply {c : Command F} (hc : c.IsPublic) {t : Tokenizer F}
    (ht : t.position ≤ t.size) : t.Moves (c.apply t).2 := by
  -- A flush has no part in where the end is, nor in where the cursor stands.
  have hflushed : (t.tokenize .text).position ≤ (t.tokenize .text).size := by
    simpa [Tokenizer.size] using ht
  cases c with
  | advance =>
      simp only [apply, Tokenizer.advance, Tokenizer.hasMore, decide_eq_true_eq]
      split
      · exact .single (.pass t (by omega) (by omega))
      · exact .refl
  | tokenize label => exact .single (.flush t label)
  | tokenizeNext amount label =>
      simp only [apply, Tokenizer.tokenizeNext]
      split
      · exact .refl
      · exact Tokenizer.moves_flush_pass_flush t .text label (by omega) (by omega)
  | consumeBlanks =>
      simp only [apply, Tokenizer.consumeBlanks]
      split
      · exact .single (.flush t .text)
      · next rest hahead =>
          have hlength := Tokenizer.length_of_ahead hflushed hahead
          have hrun : (rest.takeWhile Text.isBlank).length ≤ rest.length :=
            (List.takeWhile_sublist _).length_le
          exact Tokenizer.moves_flush_pass_flush t .text _ (by omega) (by omega)
  | setPosition i => exact hc.elim
  | setStart i => exact hc.elim

/-- **A public command does not move the cursor back.** -/
theorem Command.forward_apply {c : Command F} (hc : c.IsPublic) (t : Tokenizer F) :
    t.Forward (c.apply t).2 :=
  fun ht => Tokenizer.Moves.forward (c.moves_apply hc ht) ht

/-! ### One tokenizer on the way -/

namespace Event

/-- The tokenizer that an event concerns, as it stood just before. Reports concern none. -/
def standing? (h : Handle) : Event F → Option (Tokenizer F)
  | created k t | entered _ k t | asked k _ t | told k _ t => if k = h then some t else none
  | reported _ _ => none

/-- The tokenizer of a handle stands in an event that is its creation, an entry with it, or a
question or a command to it. -/
theorem standing?_eq_some_iff {h : Handle} {e : Event F} {t : Tokenizer F} :
    e.standing? h = some t ↔
      e = .created h t ∨ (∃ f, e = .entered f h t) ∨ (∃ q, e = .asked h q t) ∨
        ∃ c, e = .told h c t := by
  cases e <;> simp [standing?]

/-- Such an event concerns the handle. -/
theorem handle_of_standing?_eq_some {h : Handle} {e : Event F} {t : Tokenizer F}
    (he : e.standing? h = some t) : e.handle = h := by
  rcases standing?_eq_some_iff.mp he with rfl | ⟨_, rfl⟩ | ⟨_, rfl⟩ | ⟨_, rfl⟩ <;> rfl

/-- If it spares the tokenizer, that is the one that stands in it. -/
theorem Spares.eq_of_standing? {h : Handle} {e : Event F} {t u : Tokenizer F}
    (hspares : e.Spares t) (he : e.standing? h = some u) : u = t := by
  rcases standing?_eq_some_iff.mp he with rfl | ⟨_, rfl⟩ | ⟨_, rfl⟩ | ⟨_, rfl⟩
  · exact hspares.elim
  · exact hspares
  · exact hspares
  · exact hspares.elim

end Event

/-- What comes last in a chain may stand there several times, and something may follow that it is
related to. -/
theorem isChain_append_of_forall_eq {α : Type} {R : α → α → Prop} (hrefl : ∀ a, R a a)
    {l m : List α} {a b : α} (hl : (l ++ [a]).IsChain R) (hm : ∀ x ∈ m, x = a)
    (hb : b = a ∨ a ∈ m ∧ R a b) : (l ++ (m ++ [b])).IsChain R := by
  obtain ⟨hbefore, _, hlast⟩ := List.isChain_append.mp hl
  -- What follows `a` without standing there again can only be `a` itself.
  cases m with
  | nil =>
      rcases hb with rfl | ⟨hnone, _⟩
      · exact hl
      · cases hnone
  | cons x m =>
      obtain rfl := hm x List.mem_cons_self
      have hab : R x b := hb.elim (fun heq => heq ▸ hrefl b) And.right
      have hsame : (x :: m).IsChain R := by
        apply List.Pairwise.isChain
        apply List.pairwise_of_forall_mem_list
        intro y hy z hz
        rw [hm y hy, hm z hz]
        exact hrefl x
      have hafter : ((x :: m) ++ [b]).IsChain R := by
        refine List.isChain_append.mpr ⟨hsame, .singleton b, ?_⟩
        intro y hy z hz
        obtain rfl : b = z := by simpa using hz
        rw [hm y (List.mem_of_getLast? hy)]
        exact hab
      refine List.isChain_append.mpr ⟨hbefore, hafter, ?_⟩
      intro y hy z hz
      obtain rfl : x = z := by simpa using hz
      exact hlast y hy x rfl

namespace World

/-- How a tokenizer stood at each event that concerned it after an earlier world, and how it
stands now. -/
def moments (w before : World F M) (h : Handle) : List (Tokenizer F) :=
  (w.since before).filterMap (Event.standing? h) ++ [w.get h]

/-- At the events of a step a tokenizer stands as before the step. -/
theorem Step.eq_of_mem_standing {w v : World F M} (hs : Step w v) {h : Handle}
    (hh : h < w.shelf.next) :
    ∀ t ∈ (v.since w).filterMap (Event.standing? h), t = w.get h := by
  intro t ht
  obtain ⟨e, he, hstanding⟩ := List.mem_filterMap.mp ht
  rcases (hs.get_cases hh).2 with ⟨_, hspares⟩ | ⟨c, rfl⟩
  · exact (hspares e he (Event.handle_of_standing?_eq_some hstanding)).eq_of_standing? hstanding
  · rw [since_of_history_eq (w.history_tell h c)] at he
    -- The command is the only event here that is no report.
    rcases List.mem_cons.mp he with rfl | he
    · simpa [Event.standing?, eq_comm] using hstanding
    · obtain ⟨record, _, rfl⟩ := List.mem_map.mp he
      cases hstanding

/-- Handles that have been given out stay so. -/
theorem Reaches.lt_next {w v : World F M} (hr : w.Reaches v) {h : Handle}
    (hh : h < w.shelf.next) : h < v.shelf.next := by
  induction hr with
  | refl => exact hh
  | tail _ hs ih => exact (hs.get_cases ih).1

/-- **From one moment to the next there is at most one command**, so what each command establishes
holds between them. -/
theorem Reaches.isChain_moments {R : Tokenizer F → Tokenizer F → Prop} (hrefl : ∀ t, R t t)
    {w v : World F M} (hr : w.Reaches v) {h : Handle} (hh : h < w.shelf.next)
    (hcommand : ∀ c t, .told h c t ∈ v.since w → R t (c.apply t).2) :
    (w.get h :: v.moments w h).IsChain R := by
  induction hr with
  | refl => simp [moments, hrefl]
  | @tail u v hu hs ih =>
      have hsince := Reaches.since_append hu (.single hs)
      have hearlier := ih fun c t hc => hcommand c t (by simp [hsince, hc])
      have hstep : v.get h = u.get h ∨
          u.get h ∈ (v.since u).filterMap (Event.standing? h) ∧ R (u.get h) (v.get h) := by
        rcases (hs.get_cases (Reaches.lt_next hu hh)).2 with ⟨hsame, _⟩ | ⟨c, rfl⟩
        · exact .inl hsame
        · have htold := since_of_history_eq (u.history_tell h c)
          refine .inr ⟨?_, ?_⟩
          · simp [htold, Event.standing?]
          · rw [get_tell]
            exact hcommand c _ (by simp [hsince, htold])
      -- At the events of the step the tokenizer stands as it stood last.
      have hsame := hs.eq_of_mem_standing (Reaches.lt_next hu hh)
      unfold moments at hearlier ⊢
      rw [← List.cons_append] at hearlier
      rw [hsince, List.filterMap_append, List.append_assoc, ← List.cons_append]
      exact isChain_append_of_forall_eq hrefl hearlier hsame hstep

/-- **A relation between a tokenizer before and after each command holds between any two
moments**, the later one second, if it is reflexive and transitive. -/
theorem Reaches.pairwise_moments {R : Tokenizer F → Tokenizer F → Prop} (hrefl : ∀ t, R t t)
    (htrans : ∀ t u x, R t u → R u x → R t x) {w v : World F M} (hr : w.Reaches v) {h : Handle}
    (hh : h < w.shelf.next)
    (hcommand : ∀ c t, .told h c t ∈ v.since w → R t (c.apply t).2) :
    (w.get h :: v.moments w h).Pairwise R := by
  have htrans' : Trans R R R := ⟨htrans _ _ _⟩
  exact List.isChain_iff_pairwise.mp (hr.isChain_moments hrefl hh hcommand)

/-- What holds between any two moments holds between how a tokenizer stands in a world and how it
does in a later one. -/
theorem Reaches.rel_get {R : Tokenizer F → Tokenizer F → Prop} (hrefl : ∀ t, R t t)
    (htrans : ∀ t u x, R t u → R u x → R t x) {w v : World F M} (hr : w.Reaches v) {h : Handle}
    (hh : h < w.shelf.next)
    (hcommand : ∀ c t, .told h c t ∈ v.since w → R t (c.apply t).2) : R (w.get h) (v.get h) := by
  have hfirst := (List.pairwise_cons.mp (hr.pairwise_moments hrefl htrans hh hcommand)).1
  exact hfirst _ (List.mem_append_right _ (List.mem_singleton.mpr rfl))

/-- What a tokenizer was at one moment precedes what it is later. -/
theorem Reaches.precedes {w v : World F M} (hr : w.Reaches v) {h : Handle}
    (hh : h < w.shelf.next) : (w.get h).Precedes (v.get h) :=
  hr.rel_get .refl (fun _ _ _ => .trans) hh fun c t _ => c.precedes_apply t

/-- At every moment a tokenizer is over the source that it was over to begin with. -/
theorem Reaches.source_of_mem_moments {w v : World F M} (hr : w.Reaches v) {h : Handle}
    (hh : h < w.shelf.next) {t : Tokenizer F} (ht : t ∈ v.moments w h) :
    t.source = (w.get h).source := by
  have hprecedes := hr.pairwise_moments Tokenizer.Precedes.refl (fun _ _ _ => .trans) hh
    fun c t _ => c.precedes_apply t
  exact ((List.pairwise_cons.mp hprecedes).1 t ht).source_eq

/-- While start and cursor are not assigned all commands to a tokenizer are public. -/
theorem isPublic_of_mem_since {w v : World F M} {h : Handle}
    (hassign : ∀ e ∈ v.since w, ¬e.Assigns h) {c : Command F} {t : Tokenizer F}
    (hc : .told h c t ∈ v.since w) : c.IsPublic := by
  simpa [Event.Assigns] using hassign _ hc

/-- Under public commands the cursor does not go back. -/
theorem Reaches.forward {w v : World F M} (hr : w.Reaches v) {h : Handle}
    (hh : h < w.shelf.next) (hassign : ∀ e ∈ v.since w, ¬e.Assigns h) :
    (w.get h).Forward (v.get h) :=
  hr.rel_get .refl (fun _ _ _ => .trans) hh fun _ t hc =>
    Command.forward_apply (isPublic_of_mem_since hassign hc) t

/-- The life of a tokenizer begins as it is when it is new. -/
theorem Reaches.moments_create {w v : World F M} {source : Text}
    (hr : (w.create source).2.Reaches v) :
    v.moments w (w.create source).1 =
      (w.create source).2.get (w.create source).1 ::
        v.moments (w.create source).2 (w.create source).1 := by
  unfold moments
  rw [(w.reaches_create source).since_append hr, since_of_history_eq (w.history_create source),
    get_create]
  simp [Event.standing?]

/-- What happened since a tokenizer is new has happened since before it was created. -/
theorem Reaches.mem_since_of_create {w v : World F M} {source : Text}
    (hr : (w.create source).2.Reaches v) {e : Event F} (he : e ∈ v.since (w.create source).2) :
    e ∈ v.since w := by
  rw [(w.reaches_create source).since_append hr]
  exact List.mem_append_right _ he

end World

end LexChain
