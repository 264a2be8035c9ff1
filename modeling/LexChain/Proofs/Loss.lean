import LexChain.Proofs.Partition
import LexChain.Proofs.Trail

/-!
# `LexChain.Proofs.Loss`: no text is lost in silence

A chain that stops emits nothing of its own accord, so text that is pending then is
in no token, and text ahead of the cursor was never looked at. Neither goes by in
silence. `Accounted` says of a run that ended with a result that its tokens and the
pending text make up the source as far as the cursor, that the pending text is in
the last thing that the run reported, and that there is text ahead only if a state
ended the chain on purpose.

`no_silent_loss` says so for every run on a tokenizer that only public commands were
given to, and that a lexer without such a warning, and whose states never end the
chain before the text ends, returns tokens that make up its whole text.
-/

set_option autoImplicit false

namespace LexChain

variable {F M : Type}

namespace Chain

/-- On a tokenizer in order the start is away from the cursor when text is pending. -/
theorem losses_of_inOrder (settings : Settings F) {t : Tokenizer F} (ht : t.InOrder) :
    losses settings t = if settings.warns ∧ t.pending ≠ [] then
      [.dropped t.pending t.start t.position] else [] := by
  have hpending : t.pending ≠ [] ↔ t.start ≠ t.position := not_congr ht.pending_eq_nil_iff
  unfold losses
  simp only [Bool.and_eq_true, bne_iff_ne, hpending]

/-- What a run on a tokenizer that ended with a result accounts for, given the links
that it went through. -/
structure Accounted [Callable F] (settings : Settings F) (h : Handle) (initial : Value F)
    (links : List (Link F M)) (w w' : World F M) (ts : List (Token F)) : Prop where
  tokens_eq : ts = (w'.get h).tokens
  /-- The tokens returned, and then the pending text, are the source up to the cursor. -/
  covered_append_pending : Token.covered ts ++ (w'.get h).pending
    = (w'.get h).source.take (w'.get h).position.toNat
  /-- What happened in the run is what happened at its links, and one report more if
  there is text pending and the settings ask for it. -/
  since_eq : w'.since w = links.flatMap (Link.events settings h) ++
    if settings.warns ∧ (w'.get h).pending ≠ [] then
      [.reported h (.dropped (w'.get h).pending (w'.get h).start (w'.get h).position)]
    else []
  /-- This report is a warning that quotes the pending text and says where it is. -/
  warning : ∀ (text : Text) (start stop : Int),
    (Record.dropped text start stop : Record F).level = .warning ∧
      (Record.dropped text start stop : Record F).message
        = "State chain stopped with unflushed text " ++ String.ofList (Text.Quoted.encode text) ++
          " at " ++ toString start ++ ":" ++ toString stop ++ "; it was dropped"
  /-- The others that the run itself made are no warnings. -/
  level_eq_debug : ∀ l ∈ links, ∀ r ∈ l.reports settings h, r.level = .debug
  /-- Text is left ahead only if there was no state to begin with, or if the last one
  called ended the chain there. -/
  ended : (w'.get h).position < (w'.get h).size →
    initial = .none ∨
      ∃ l, links.getLast? = some l ∧ l.result = .none ∧ l.left.get h = w'.get h

variable [Callable F]

/-- A warning quotes the text that was lost and says where it is. -/
theorem message_dropped (text : Text) (start stop : Int) :
    (Record.dropped text start stop : Record F).message
      = "State chain stopped with unflushed text " ++ String.ofList (Text.Quoted.encode text) ++
        " at " ++ toString start ++ ":" ++ toString stop ++ "; it was dropped" := by
  show "State chain stopped with unflushed text " ++ String.ofList (Text.Quoted.encode text) ++
    " at " ++ (toString start ++ ":" ++ toString stop) ++ "; it was dropped" = _
  simp only [String.append_assoc]

/-- What a run reports of a transition is no warning. -/
theorem level_of_mem_reports {settings : Settings F} {h : Handle} {l : Link F M} {r : Record F}
    (hr : r ∈ l.reports settings h) : r.level = .debug := by
  unfold Link.reports at hr
  split at hr
  · rw [List.mem_singleton.mp hr]
    rfl
  · simp at hr

/-- A run on a partitioned tokenizer that ended with a result accounts for all text. -/
theorem accounted {machine : Machine F M} {fuel : Nat} {h : Handle} {initial : Value F}
    {w w' : World F M} {ts : List (Token F)} (hw : (w.get h).Partitioned)
    (hrun : machine.exec fuel (.run h initial) w = (some (.ok ts), w'))
    (hassign : ∀ e ∈ w'.since w, ¬e.Assigns h) :
    ∃ s links last u, initial.asState initialName = .ok s ∧
      Trail (machine.enter fuel) w.settings h s w links last u ∧
      Accounted w.settings h initial links w w' ts := by
  have hreaches : w.Reaches w' := by
    have hexec := machine.exec_reaches fuel (.run h initial) w
    rwa [hrun] at hexec
  -- The tokenizer is in order again at the end, so its tokens are the text up to its start.
  have hpartitioned := (hreaches.partitioned hw hassign).1
  obtain ⟨s, links, last, u, hs, htrail, hstops, hstop⟩ := run_ok hrun
  obtain ⟨hts, hget⟩ := stop_eq_ok hstop
  -- The losses are cut at the moment when the chain has come to its end: the links write none,
  -- and the warning is what the last round writes.
  obtain ⟨hwu, hsince⟩ := htrail.since_eq (machine.steps_enter fuel)
  have huw : u.Reaches w' := by
    have hsteps := reaches_stop w.settings h u
    rwa [hstop] at hsteps
  refine ⟨s, links, last, u, hs, htrail, ?_⟩
  refine ⟨hts, ?_, ?_, fun _ _ _ => ⟨rfl, message_dropped ..⟩,
    fun l _ r hr => level_of_mem_reports hr, ?_⟩
  · rw [hts, hpartitioned.covered_tokens]
    exact hpartitioned.take_append_pending
  · have hlosses := since_stop w.settings h u
    rw [hstop, ← hget h, losses_of_inOrder _ hpartitioned.toInOrder] at hlosses
    rw [hwu.since_append huw, hsince, hlosses]
    split <;> rfl
  · -- Text is left over. Had the tokenizer no more data, the cursor would stand at the end, so
    -- the chain ended because a state was none.
    intro hposition
    rcases hstops with rfl | hmore
    · -- The chain has come to its end, by the last link or from the beginning.
      rcases htrail.eq_or_getLast with ⟨rfl, rfl, rfl⟩ | ⟨l, hlast, htarget, rfl, hresult⟩
      · exact .inl (asState_eq_none_iff.mp hs)
      · rw [htarget] at hresult
        refine .inr ⟨l, hlast, asState_eq_none_iff.mp hresult, ?_⟩
        rw [hget h, get_arrived]
    · rw [← hget h] at hmore
      have hend := hpartitioned.position_eq_size hmore
      omega

/-- A run that accounts for all text, warns of nothing, and was not ended by a state
before the text was, returns tokens that make up the source. -/
theorem Accounted.covered_eq_source {settings : Settings F} {h : Handle} {initial : Value F}
    {links : List (Link F M)} {w w' : World F M} {ts : List (Token F)}
    (haccounted : Accounted settings h initial links w w' ts) (hwarns : settings.warns = true)
    (hsilent : ∀ e ∈ w'.since w, ¬e.Warns h) (hinitial : initial ≠ .none)
    (hends : ∀ l ∈ links, l.result = .none → (l.left.get h).hasMore = false) :
    Token.covered ts = (w'.get h).source := by
  -- Pending text would be in a warning.
  have hpending : (w'.get h).pending = [] := by
    by_cases hp : (w'.get h).pending = []
    · exact hp
    · have hlost : .reported h (.dropped (w'.get h).pending (w'.get h).start (w'.get h).position)
          ∈ w'.since w := by
        rw [haccounted.since_eq, if_pos ⟨hwarns, hp⟩]
        exact List.mem_append_right _ (List.mem_singleton.mpr rfl)
      exact absurd ⟨rfl, (haccounted.warning ..).1⟩ (hsilent _ hlost)
  -- Text ahead would mean that a state ended the chain before it.
  have hend : ¬(w'.get h).position < (w'.get h).size := by
    intro hposition
    rcases haccounted.ended hposition with hnone | ⟨l, hlast, hresult, hleft⟩
    · exact hinitial hnone
    · have hmore := hends l (List.mem_of_getLast? hlast) hresult
      rw [hleft] at hmore
      simp [Tokenizer.hasMore, hposition] at hmore
  have hcovered := haccounted.covered_append_pending
  unfold Tokenizer.size at hend
  rw [hpending, List.append_nil] at hcovered
  rw [hcovered]
  exact List.take_of_length_le (by omega)

end Chain

/-- **No text is lost in silence.** A run that ended with a result accounts for all
text, whatever the machine is and whatever came before it, if the start and the cursor
of the tokenizer were never assigned. So a lexer with warnings switched on that started
with a state and warned of nothing, and whose states ended the chain only with no
character left, returned tokens that make up its text. -/
theorem no_silent_loss [Callable F] (machine : Machine F M) (fuel : Nat) :
    (∀ (settings : Settings F) (memory : M) (h : Handle) (initial : Value F)
      (w w' : World F M) (ts : List (Token F)),
      World.Reaches { settings, memory } w →
      machine.exec fuel (.run h initial) w = (some (.ok ts), w') →
      (∀ e ∈ w'.history, ¬e.Assigns h) →
      ∃ s links last u, initial.asState Chain.initialName = .ok s ∧
        Chain.Trail (machine.enter fuel) w.settings h s w links last u ∧
        Chain.Accounted w.settings h initial links w w' ts) ∧
    ∀ (source : Text) (initial : Value F) (w w' : World F M) (ts : List (Token F)),
      machine.exec fuel (.lex source initial) w = (some (.ok ts), w') →
      (∀ e ∈ w'.since w, ¬e.Assigns w.shelf.next) →
      w.settings.warns = true →
      (∀ e ∈ w'.since w, ¬e.Warns w.shelf.next) →
      initial ≠ .none →
      (∀ s links last u, initial.asState Chain.initialName = .ok s →
        Chain.Trail (machine.enter fuel) w.settings w.shelf.next s (w.create source).2 links
          last u →
        ∀ l ∈ links, l.result = .none → (l.left.get w.shelf.next).hasMore = false) →
      Token.covered ts = source := by
  refine ⟨?_, ?_⟩
  · intro settings memory h initial w w' ts hw hrun hassign
    have hreaches : w.Reaches w' := by
      have hexec := machine.exec_reaches fuel (.run h initial) w
      rwa [hrun] at hexec
    rw [hreaches.history_eq] at hassign
    -- Before the run the tokenizer was used as in it, so it was partitioned.
    have hpartitioned := (hw.partitioned (h := h) (Tokenizer.partitioned_new [] false)
      fun e he => hassign e (List.mem_append_left _ he)).1
    exact Chain.accounted hpartitioned hrun fun e he => hassign e (List.mem_append_right _ he)
  · intro source initial w w' ts hlex hassign hwarns hsilent hinitial hends
    -- The run begins in the world with the new tokenizer.
    have hrun : machine.exec fuel (.run w.shelf.next initial) (w.create source).2
        = (some (.ok ts), w') := hlex
    have hnew : (w.create source).2.get w.shelf.next
        = { source, traced := w.settings.tracesTokens } := w.get_create source
    have hcreated : w.Reaches (w.create source).2 := .single (.created w source)
    have hreaches : (w.create source).2.Reaches w' := by
      have hexec := machine.exec_reaches fuel (.run w.shelf.next initial) (w.create source).2
      rwa [hrun] at hexec
    have hlater : ∀ e ∈ w'.since (w.create source).2, e ∈ w'.since w := by
      intro e he
      rw [hcreated.since_append hreaches]
      exact List.mem_append_right _ he
    obtain ⟨s, links, last, u, hs, htrail, haccounted⟩ :=
      Chain.accounted (hnew ▸ Tokenizer.partitioned_new source _) hrun
        fun e he => hassign e (hlater e he)
    have hcovered := haccounted.covered_eq_source hwarns (fun e he => hsilent e (hlater e he))
      hinitial (hends s links last u hs htrail)
    rw [hcovered, hreaches.source_eq (Shelf.lt_next_put ..), hnew]

/-- A chain that its state ends with text pending and text ahead, which is reported with the
text and where it is, and one that goes on to the end. -/
theorem no_silent_loss_pending :
    let quitter : Machine Ini.StateId Unit := fun _ h => do
      Program.tell h .advance
      return .none
    let walker : Machine Ini.StateId Unit := fun s h => do
      Program.tell h .advance
      Program.tell h (.tokenize .text)
      return Ini.handOver id s
    let w : World Ini.StateId Unit := { memory := () }
    let v := (w.create "ab".toList).2
    let v' := (quitter.exec 9 (.run 0 (Ini.handOver id .line)) v).2
    (∃ s links last u, Value.asState Chain.initialName (Ini.handOver id .line) = .ok s ∧
        Chain.Trail (quitter.enter 9) v.settings 0 s v links last u ∧
        Chain.Accounted v.settings 0 (Ini.handOver id .line) links v v' []) ∧
      v'.records.map Record.message
        = ["State chain stopped with unflushed text 'a' at 0:1; it was dropped"] ∧
      ∃ ts, (walker.exec 9 (.lex "ab".toList (Ini.handOver id .line)) w).1 = some (.ok ts) ∧
        Token.covered ts = "ab".toList := by
  intro quitter walker w v v'
  have hnone : (quitter.exec 9 (.run 0 (Ini.handOver id .line)) v).1 = some (.ok []) := rfl
  have hok : (walker.exec 9 (.lex "ab".toList (Ini.handOver id .line)) w).1.any
      Except.isOk = true := by decide +kernel
  obtain ⟨e | ts, hts, hisOk⟩ := (Option.any_eq_true _ _).mp hok
  · cases hisOk
  refine ⟨(no_silent_loss quitter 9).1 .default () 0 _ v v' [] ?_ ?_ ?_, ?_, ts, hts, ?_⟩
  · exact .single (.created w "ab".toList)
  · rw [← hnone]
  · decide +kernel
  · decide +kernel
  · refine (no_silent_loss walker 9).2 "ab".toList (Ini.handOver id .line) w
      (walker.exec 9 (.lex "ab".toList (Ini.handOver id .line)) w).2 ts (by rw [← hts])
      ?_ rfl ?_ ?_ ?_
    · decide +kernel
    · decide +kernel
    · intro hnone
      cases hnone
    · intro s links last u _ htrail l hl hresult
      -- No call of the walker hands back the end of the chain.
      have hcall := (htrail.of_mem hl).2.1
      have hwalk : (walker.enter 9 l.source.callee w.shelf.next l.called).1
          = some (.ok (Ini.handOver id l.source.callee)) := rfl
      rw [hcall, hresult] at hwalk
      cases hwalk

end LexChain
