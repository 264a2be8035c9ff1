import LexChain.Proofs.Ini.Calls
import LexChain.Proofs.Trail
import LexChain.Proofs.Without

/-!
# `LexChain.Proofs.Ini.Ending`: the lexer reads to the end

The lexer for settings files may be started anywhere: in any of its states, with the
cursor at any character, with tokens there already and with text pending. As long as
there is text left, or none pending, its run ends with the start and the cursor at the
end of the text, and all the text from the start on is in the tokens that it added:
`run_reads_to_end`. In particular it never has text to warn of.

Three facts about `drive` carry this. Tokens that were there have no part in it
(`drive_after`), so it is enough to look at what is added. No call leaves text pending
and none ahead (`settled_call`), so there is none pending in the end. And no call loses
text (`text_call`), so what was pending or ahead is in the tokens.
-/

set_option autoImplicit false

namespace LexChain.Ini

variable {F M : Type}

/-! ### What a chain of calls adds -/

/-- Earlier tokens make no difference to what is read. -/
theorem readTo_after (stops : List Char) (c : Category) (t : Tape F) (earlier : List (Token F)) :
    readTo stops c (t.after earlier) = (readTo stops c t).after earlier :=
  (t.passWhile _).flush_after earlier _

/-- Earlier tokens make no difference to a call. -/
theorem call_after (s : StateId) (t : Tape F) (earlier : List (Token F)) :
    call s (t.after earlier) = ((call s t).1, (call s t).2.after earlier) := by
  have hone : ∀ (c : Category) (u : Tape F),
      readOne c (u.after earlier) = (readOne c u).after earlier := fun c u => u.apply_after ..
  have hrest : ∀ u : Tape F, (u.after earlier).rest = u.rest := fun _ => rfl
  -- Whether a branch is taken depends on the rest alone, which the earlier tokens do not touch.
  cases s with
  | line =>
      cases hc : t.rest with
      | nil => simp [call, hrest, hc]
      | cons c r =>
          simp only [call, hrest, hc, hone, Tape.apply_after]
          split
          · rfl
          · split
            · rfl
            · split <;> rfl
  | comment => simp [call, readTo_after]
  | sectionName =>
      simp only [call, readTo_after, hrest, hone]
      split <;> rfl
  | key =>
      simp only [call, readTo_after, hrest, hone]
      split <;> rfl

/-- Earlier tokens make no difference to what is driven. -/
theorem drive_after (s : StateId) (t : Tape F) (earlier : List (Token F)) :
    drive s (t.after earlier) = (drive s t).after earlier := by
  induction s, t using drive.induct with
  | case1 s t hrest =>
      have hrest' : (t.after earlier).rest = [] := hrest
      rw [drive_of_eq_nil s hrest, drive_of_eq_nil s hrest']
  | case2 s t hrest ih =>
      have hrest' : (t.after earlier).rest ≠ [] := hrest
      rw [drive_of_ne_nil s hrest, drive_of_ne_nil s hrest', call_after]
      exact ih

/-- No call adds an empty token. -/
theorem lexeme_ne_nil_call (s : StateId) {t : Tape F} (ht : ∀ k ∈ t.tokens, k.lexeme ≠ []) :
    ∀ k ∈ (call s t).2.tokens, k.lexeme ≠ [] := by
  have hto : ∀ (stops : List Char) (c : Category) {u : Tape F},
      (∀ k ∈ u.tokens, k.lexeme ≠ []) → ∀ k ∈ (readTo stops c u).tokens, k.lexeme ≠ [] := by
    intro stops c u hu
    exact Tape.lexeme_ne_nil_flush (t := u.passWhile _) hu _
  have hone : ∀ (c : Category) {u : Tape F},
      (∀ k ∈ u.tokens, k.lexeme ≠ []) → ∀ k ∈ (readOne c u).tokens, k.lexeme ≠ [] := by
    intro c u hu
    exact Tape.lexeme_ne_nil_apply hu _
  -- Every branch is made up of these two and of the command to consume blanks.
  cases s with
  | line =>
      simp only [call]
      split
      · exact ht
      · split
        · exact Tape.lexeme_ne_nil_apply ht _
        · split
          · exact ht
          · split
            · exact hone _ ht
            · exact ht
  | comment => exact hto _ _ ht
  | sectionName =>
      simp only [call]
      split
      · exact hone _ (hto _ _ ht)
      · exact hto _ _ ht
  | key =>
      simp only [call]
      split
      · exact hto _ _ (hone _ (hto _ _ ht))
      · exact hto _ _ ht

/-- A call emits what is pending, or it leaves all the text ahead. -/
theorem settled_call (s : StateId) {t : Tape F} (hrest : t.rest ≠ []) :
    (call s t).2.rest ≠ [] ∨ (call s t).2.pending = [] := by
  -- A call ends by emitting, or it hands over with the character still ahead.
  cases s with
  | line =>
      obtain ⟨c, r, hc⟩ := List.exists_cons_of_ne_nil hrest
      simp only [call, hc]
      split
      · exact .inr rfl
      · split
        · exact .inl hrest
        · split
          · exact .inr rfl
          · exact .inl hrest
  | comment => exact .inr rfl
  | sectionName =>
      simp only [call]
      split <;> exact .inr rfl
  | key =>
      simp only [call]
      split <;> exact .inr rfl

/-- At the end of a chain of calls no text is left, and none is pending. -/
theorem drive_ends (s : StateId) (t : Tape F) (hsettled : t.rest ≠ [] ∨ t.pending = [])
    (ht : ∀ k ∈ t.tokens, k.lexeme ≠ []) :
    (drive s t).rest = [] ∧ (drive s t).pending = [] ∧ (drive s t).text = t.text ∧
      ∀ k ∈ (drive s t).tokens, k.lexeme ≠ [] := by
  induction s, t using drive.induct with
  | case1 s t hrest =>
      rw [drive_of_eq_nil s hrest]
      exact ⟨hrest, hsettled.resolve_left (by simpa using hrest), rfl, ht⟩
  | case2 s t hrest ih =>
      rw [drive_of_ne_nil s hrest, ← text_call s t]
      exact ih (settled_call s hrest) (lexeme_ne_nil_call s ht)

/-- **A chain of calls turns all text into tokens**, the pending text too, and puts them
behind the tokens that were there. -/
theorem exists_drive_eq (s : StateId) (t : Tape F) (hsettled : t.rest ≠ [] ∨ t.pending = []) :
    ∃ added : List (Token F), drive s t = ⟨t.tokens ++ added, [], []⟩ ∧
      (∀ k ∈ added, k.lexeme ≠ []) ∧ Token.covered added = t.pending ++ t.rest := by
  -- Without the tokens that were there all tokens in the end are added ones.
  let bare : Tape F := ⟨[], t.pending, t.rest⟩
  have hbare : bare.after t.tokens = t := by simp [bare, Tape.after]
  obtain ⟨hrest, hpending, htext, hlexeme⟩ := drive_ends s bare hsettled (by simp [bare])
  refine ⟨(drive s bare).tokens, ?_, hlexeme, ?_⟩
  · rw [← hbare, drive_after, Tape.after, hrest, hpending]
    simp [hbare]
  · rw [Tape.text, hrest, hpending] at htext
    simpa [Tape.text, bare, Token.covered] using htext

/-! ### No warning -/

/-- To advance to a stop takes questions and commands only. -/
theorem unchained_advanceTo (stops : List Char) (h : Handle) :
    (advanceTo stops h : Program F M Unit).Unchained := by
  refine .whileTrue (.bind trivial ?_) trivial
  intro more
  cases more with
  | true => exact .bind trivial fun c => by cases c <;> trivial
  | false => trivial

/-- The states drive no chain of their own. -/
theorem unchained_body (embed : StateId → F) (s : StateId) (h : Handle) :
    (body embed s h : Program F M (Value F)).Unchained := by
  cases s with
  | line =>
      refine .bind trivial ?_
      intro c
      cases c with
      | none => trivial
      | some c =>
          exact .ite _ (.bind trivial fun _ => trivial)
            (.ite _ trivial (.ite _ (.bind trivial fun _ => trivial) trivial))
  | comment =>
      exact .bind (unchained_advanceTo _ h) fun _ => .bind trivial fun _ => trivial
  | sectionName =>
      exact .bind (unchained_advanceTo _ h) fun _ => .bind trivial fun _ => .bind trivial fun _ =>
        .ite _ (.bind trivial fun _ => trivial) trivial
  | key =>
      exact .bind (unchained_advanceTo _ h) fun _ => .bind trivial fun _ => .bind trivial fun _ =>
        .ite _ (.bind trivial fun _ => .bind (unchained_advanceTo _ h) fun _ =>
          .bind trivial fun _ => trivial) trivial

open Execution (Carries Without)

variable {h : Handle} {t : Tape F}

/-- A chain that stops with nothing pending has nothing to warn of. -/
theorem reachesWithout_stop (settings : Settings F) {w : World F M} (hw : (w.get h).Shows t)
    (hpending : t.pending = []) :
    w.ReachesWithout Event.IsWarning (Chain.stop settings h w).2 := by
  have hstart : (w.get h).start = (w.get h).position := by
    rw [← hw.inOrder.pending_eq_nil_iff, hw.pending_eq, hpending]
  have hstop : (Chain.stop settings h w).2 = w := by simp [Chain.stop, hstart]
  rw [hstop]
  exact .refl w

variable [Callable F] {enter : F → Handle → Execution F M (Value F)}

/-- The chain from a state on warns of nothing, if there is text left or none pending. -/
theorem reachesWithout_follow {embed : StateId → F} {size : Nat}
    (hcall : ∀ (s : StateId) (t : Tape F), t.rest ≠ [] → t.rest.length ≤ size →
      (enter (embed s) h).Carries h t (handOver embed (call s t).1) (call s t).2)
    (hwithout : ∀ s : StateId, (enter (embed s) h).Without Event.OfChain)
    (settings : Settings F) {n : Nat} (s : StateId) (hsize : t.rest.length ≤ size)
    (hn : turns s t.rest ≤ n) (hsettled : t.rest ≠ [] ∨ t.pending = []) {w : World F M}
    (hw : (w.get h).Shows t) :
    w.ReachesWithout Event.IsWarning
      (Chain.follow enter settings h n (some (.of (embed s))) w).2 := by
  -- Along the turns, as in `carries_follow`: the chain stops with nothing pending.
  induction n generalizing s t w with
  | zero =>
      have hrest : t.rest = [] := by
        unfold turns at hn
        exact List.eq_nil_of_length_eq_zero (by omega)
      rw [Chain.follow_of_not_hasMore _ _ _ _ (by simp [hw.hasMore, hrest])]
      exact reachesWithout_stop settings hw (hsettled.resolve_left (by simpa using hrest))
  | succ n ih =>
      by_cases hrest : t.rest = []
      · rw [Chain.follow_of_not_hasMore _ _ _ _ (by simp [hw.hasMore, hrest])]
        exact reachesWithout_stop settings hw (hsettled.resolve_left (by simpa using hrest))
      · have hturn := turns_call_lt s hrest
        have hle := length_rest_call_le s hrest
        have hlink : (Chain.link enter settings h (.of (embed s))).Without Event.IsWarning := by
          refine Without.bind ?_ (Chain.without_receive settings h _)
          exact fun w => (hwithout s w).mono fun e he => he.ofChain
        obtain ⟨w', hw', hshows⟩ := carries_link (hcall s t hrest hsize) settings w hw
        have hbefore := hlink w
        rw [Chain.follow_of_hasMore _ _ _ _ (by simpa [hw.hasMore] using hrest),
          Execution.bind_of_ok hw']
        rw [hw'] at hbefore
        exact hbefore.trans (ih (call s t).1 (by omega) (by omega) (settled_call s hrest) hshows)

/-! ### A run from anywhere -/

/-- What a run has done that started in a world and read all the text of a tokenizer. -/
structure ReadToEnd (h : Handle) (w : World F M) (added : List (Token F)) (w' : World F M) :
    Prop where
  tokens_eq : (w'.get h).tokens = (w.get h).tokens ++ added
  source_eq : (w'.get h).source = (w.get h).source
  start_eq : (w'.get h).start = (w'.get h).size
  position_eq : (w'.get h).position = (w'.get h).size
  lexeme_ne_nil : ∀ k ∈ added, k.lexeme ≠ []
  /-- The tokens added cover the text from the start on, pending text included. -/
  covered_added : Token.covered added = (w.get h).source.drop (w.get h).start.toNat
  not_warns : ∀ e ∈ w'.since w, ∀ k, ¬e.Warns k

/-- A run with no character left changes no tokenizer. -/
theorem get_run_of_not_hasMore (machine : Machine F M) (fuel : Nat) (v : Value F)
    {w : World F M} (hmore : (w.get h).hasMore = false) (k : Handle) :
    (machine.exec fuel (.run h v) w).2.get k = w.get k := by
  -- Stopping writes a warning at most, and reports change no tokenizer.
  have hstop : ∀ settings : Settings F, (Chain.stop settings h w).2.get k = w.get k := by
    intro settings
    unfold Chain.stop
    dsimp only
    split <;> rfl
  show (Chain.run (machine.enter fuel) fuel h v w).2.get k = w.get k
  unfold Chain.run
  cases v.asState Chain.initialName with
  | error e => rfl
  | ok s =>
      cases s with
      | none => cases fuel <;> exact hstop _
      | some s =>
          dsimp only
          rw [Chain.follow_of_not_hasMore _ _ _ _ hmore]
          exact hstop _

/-- A run changes no source, whether a tokenizer stands at its handle or not. -/
theorem source_run (machine : Machine F M) (fuel : Nat) (v : Value F) (w : World F M) :
    ((machine.exec fuel (.run h v) w).2.get h).source = (w.get h).source := by
  cases hmore : (w.get h).hasMore with
  | true =>
      exact (machine.exec_reaches fuel (.run h v) w).source_eq (World.lt_next_of_hasMore hmore)
  | false => rw [get_run_of_not_hasMore machine fuel v hmore]

/-- The run on a tape, with the warnings that there are not. -/
theorem exists_run_eq_drive {machine : Machine F M} {embed : StateId → F}
    (hhosts : Hosts machine embed) (s : StateId) {w : World F M} (hw : (w.get h).Shows t)
    (hsettled : t.rest ≠ [] ∨ t.pending = []) {fuel : Nat} (hfuel : 2 * t.rest.length + 2 ≤ fuel) :
    ∃ w', machine.exec fuel (.run h (handOver embed s)) w = (some (.ok (drive s t).tokens), w') ∧
      (w'.get h).Shows (drive s t) ∧ w.ReachesWithout Event.IsWarning w' := by
  have hturns := turns_le s t.rest
  have hcall : ∀ (s : StateId) (u : Tape F), u.rest ≠ [] → u.rest.length ≤ t.rest.length →
      (machine.enter fuel (embed s) h).Carries h u (handOver embed (call s u).1) (call s u).2 := by
    intro s u hrest hle
    exact carries_enter hhosts s hrest (by omega)
  -- A warning is an event of the chain itself. The bodies run no chain, so none comes from a
  -- call.
  have hwithout : ∀ s : StateId, (machine.enter fuel (embed s) h).Without Event.OfChain := by
    intro s
    apply Machine.without_enter
    rw [hhosts s h]
    exact unchained_body embed s h
  have hcarries : (machine.exec fuel (.run h (handOver embed s))).Carries h t (drive s t).tokens
      (drive s t) := carries_run hhosts s (by omega) (by omega)
  obtain ⟨w', hexec, hshows⟩ := hcarries w hw
  refine ⟨w', hexec, hshows, ?_⟩
  have hfollow := reachesWithout_follow hcall hwithout w.settings s (n := fuel) (Nat.le_refl _)
    (by omega) hsettled hw
  have hrun : (Chain.follow (machine.enter fuel) w.settings h fuel (some (.of (embed s))) w).2
      = w' := congrArg Prod.snd hexec
  rwa [hrun] at hfollow

/-- **The lexer reads to the end, from wherever it starts.** Take a machine that hosts
its states, any of these, and a tokenizer in order with a character left or with nothing
pending. The run ends with a result, raises no fault and warns of nothing; start and
cursor are at the end then, and the tokens that it added cover all that no token covered
before. -/
theorem run_reads_to_end {machine : Machine F M} {embed : StateId → F}
    (hhosts : Hosts machine embed) (s : StateId) {w : World F M} (hw : (w.get h).InOrder)
    (hsettled : (w.get h).hasMore = true ∨ (w.get h).start = (w.get h).position) {fuel : Nat}
    (hfuel : fuelFor (w.get h).source ≤ fuel) :
    ∃ added w', machine.exec fuel (.run h (handOver embed s)) w
        = (some (.ok ((w.get h).tokens ++ added)), w') ∧
      ReadToEnd h w added w' := by
  have hrest : (w.get h).tape.rest.length ≤ (w.get h).source.length := by
    simp [Tokenizer.tape, Tokenizer.rest]
  have htape : (w.get h).tape.rest ≠ [] ∨ (w.get h).tape.pending = [] := by
    rcases hsettled with hmore | hstart
    · rw [hw.hasMore] at hmore
      exact .inl (by simpa [Tokenizer.tape] using hmore)
    · exact .inr (hw.pending_eq_nil_iff.mpr hstart)
  obtain ⟨added, hdrive, hlexeme, hcovered⟩ := exists_drive_eq s (w.get h).tape htape
  have henough : 2 * (w.get h).tape.rest.length + 2 ≤ fuel := by
    unfold fuelFor at hfuel
    omega
  obtain ⟨w', hexec, hshows, hwithout⟩ := exists_run_eq_drive hhosts s hw.shows htape henough
  rw [hdrive] at hexec hshows
  refine ⟨added, w', hexec, ?_⟩
  -- With no text ahead the cursor is at the end, and with none pending the start is too.
  have hend : (w'.get h).position = (w'.get h).size := by
    apply hshows.inOrder.position_eq_size
    rw [hshows.hasMore]
    rfl
  have hstart : (w'.get h).start = (w'.get h).position := by
    rw [← hshows.inOrder.pending_eq_nil_iff, hshows.pending_eq]
  have hsource : (w'.get h).source = (w.get h).source := by
    have hrun := source_run (h := h) machine fuel (handOver embed s) w
    rwa [hexec] at hrun
  refine ⟨hshows.tokens_eq, hsource, hstart.trans hend, hend, hlexeme, ?_, ?_⟩
  · -- Behind what the tokens cover come the pending text and the rest.
    have hsplit := hw.take_append_pending_append_rest
    have htake := List.take_append_drop (w.get h).start.toNat (w.get h).source
    rw [List.append_assoc] at hsplit
    rw [hcovered]
    exact List.append_cancel_left (hsplit.trans htake.symm)
  · intro e he k hk
    exact hwithout.not_of_mem e he ⟨k, hk⟩

/-- A tokenizer with a token and a pending bracket, started inside a section name. -/
theorem run_reads_to_end_inside :
    let new : World StateId Unit := (World.create { memory := () } "x]\ny=".toList).2
    let first := ((new.tell 0 .advance).2.tell 0 (.tokenize .text)).2
    let w := (first.tell 0 .advance).2
    ∃ added w', (machine : Machine StateId Unit).exec 12 (.run 0 (handOver id .sectionName)) w
        = (some (.ok ((w.get 0).tokens ++ added)), w') ∧
      ReadToEnd 0 w added w' := by
  intro new first w
  exact run_reads_to_end hosts_machine .sectionName (h := 0) (w := w)
    ⟨by decide, by decide, by decide⟩ (.inl rfl) (by decide)

end LexChain.Ini
