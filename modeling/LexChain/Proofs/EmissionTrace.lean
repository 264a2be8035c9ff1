import LexChain.Proofs.Growth
import LexChain.Proofs.Partition

/-!
# `LexChain.Proofs.EmissionTrace`: the reports of emitted tokens retell the tokens

A tokenizer traces the tokens that it emits, or it does not, from its creation on. One that
traces reports every token that it emits and nothing twice: after each step of an execution
the reports so far are just what it has emitted (`World.Reaches.emissions_eq`). One that does
not trace reports none of them (`World.Reaches.emissionTrace_eq_nil`). The settings that come into
force later have no part in either.

Each report says where its token stands in the source. As long as the start and the cursor are
not assigned, these ranges are `Emission.Tiled`: they lead from the beginning of the source
to the start without a gap, none of them is empty, and each holds the token's lexeme.
`emission_trace_retells` puts the two together.
-/

set_option autoImplicit false

namespace LexChain

variable {F M α : Type}

/-! ### Ranges without a gap -/

/-- The ranges of these emissions lead from one position to another without a gap. None is
empty, and each holds the lexeme of its token. -/
inductive Emission.Tiled (source : Text) : Int → List (Emission F) → Int → Prop
  | nil (a : Int) : Tiled source a [] a
  | cons {e : Emission F} {es : List (Emission F)} {b : Int} (hrange : e.start < e.stop)
      (hlexeme : e.token.lexeme = source.slice e.start e.stop)
      (hrest : Tiled source e.stop es b) : Tiled source e.start (e :: es) b

/-- Ranges that follow each other up to a place can be followed by others from there on. -/
theorem Emission.Tiled.append {source : Text} {a b c : Int} {es fs : List (Emission F)}
    (hes : Tiled source a es b) (hfs : Tiled source b fs c) : Tiled source a (es ++ fs) c := by
  induction hes with
  | nil => exact hfs
  | cons hrange hlexeme _ ih => exact .cons hrange hlexeme (ih hfs)

namespace Tokenizer

/-- Start and cursor are in order, and what was emitted leads up to the start. -/
structure Retold (t : Tokenizer F) : Prop extends InOrder t where
  tiled : Emission.Tiled t.source 0 t.emissions t.start

/-- A new tokenizer has emitted nothing that could be retold wrongly. -/
theorem retold_new (source : Text) (traced : Bool) :
    ({ source, traced } : Tokenizer F).Retold :=
  ⟨(shows_new source traced).inOrder, .nil 0⟩

/-- What a flush emits goes from the start to the cursor. -/
theorem InOrder.tiled_flushed {t : Tokenizer F} (ht : t.InOrder) (label : Value F) :
    Emission.Tiled t.source t.start (t.flushed label) t.position := by
  unfold flushed
  split
  · next hsame =>
      rw [hsame]
      exact .nil _
  · next hne =>
      have hlt : t.start < t.position := by
        have hle := ht.start_le_position
        omega
      exact .cons (e := ⟨⟨t.pending, label⟩, t.start, t.position⟩) hlt rfl (.nil _)

/-- A move adds the range between start and cursor, and the start goes to its end. -/
theorem Move.retold {t u : Tokenizer F} (hm : t.Move u) (ht : t.Retold) : u.Retold := by
  cases hm with
  | pass hi hi' =>
      exact ⟨⟨ht.start_nonneg, Int.le_trans ht.start_le_position hi, hi'⟩, ht.tiled⟩
  | flush label =>
      refine ⟨(ht.toInOrder.shows.tokenize label).inOrder, ?_⟩
      rw [source_tokenize, emissions_tokenize, start_tokenize]
      exact ht.tiled.append (ht.toInOrder.tiled_flushed label)

/-- **Public commands keep the ranges without a gap.** -/
theorem Retold.apply {t : Tokenizer F} (ht : t.Retold) {c : Command F} (hc : c.IsPublic) :
    (c.apply t).2.Retold := by
  have hmoves : ∀ u, t.Moves u → u.Retold := by
    intro u hu
    induction hu with
    | refl => exact ht
    | tail _ hm ih => exact hm.retold ih
  exact hmoves _ (c.moves_apply hc ht.position_le_size)

end Tokenizer

/-! ### Reports of emissions -/

/-- The emission that an event reports on account of a tokenizer, if it reports one. -/
def Event.emission? (h : Handle) : Event F → Option (Emission F)
  | reported k (.emitted e) => if k = h then some e else none
  | _ => none

/-- The report of an emission shows the token and where it stands. -/
theorem Record.message_emitted [Callable F] (e : Emission F) :
    (Record.emitted e).message = "Emitted " ++ e.token.render ++ " at " ++
      toString e.start ++ ":" ++ toString e.stop := by
  show "Emitted " ++ e.token.render ++ " at " ++ (toString e.start ++ ":" ++ toString e.stop) = _
  simp only [String.append_assoc]

/-- An event that changes no tokenizer reports no emission. -/
theorem Event.Spares.emission?_eq_none {t : Tokenizer F} {e : Event F} (he : e.Spares t)
    (h : Handle) : e.emission? h = none := by
  cases e with
  | reported k record =>
      cases record with
      | emitted emission => cases he
      | _ => rfl
  | _ => rfl

/-- What concerns another tokenizer is no emission of this one. -/
theorem Event.emission?_eq_none_of_ne {h : Handle} {e : Event F} (he : e.handle ≠ h) :
    e.emission? h = none := by
  cases e with
  | reported k record =>
      cases record with
      | emitted emission => exact if_neg he
      | _ => rfl
  | _ => rfl

namespace World

/-- What was reported of a tokenizer's emissions after an earlier world, in order. -/
def emissionTrace (w before : World F M) (h : Handle) : List (Emission F) :=
  (w.since before).filterMap (Event.emission? h)

/-- Nothing was traced since now. -/
@[simp] theorem emissionTrace_self (w : World F M) (h : Handle) : w.emissionTrace w h = [] := by
  simp [emissionTrace]

/-- What was traced on the way is what was traced up to a moment and from there on. -/
theorem Reaches.emissionTrace_append {w u v : World F M} (hu : w.Reaches u) (hv : u.Reaches v)
    (h : Handle) : v.emissionTrace w h = u.emissionTrace w h ++ v.emissionTrace u h := by
  unfold emissionTrace
  rw [hu.since_append hv, List.filterMap_append]

/-- The creation of a tokenizer is no report. -/
theorem emissionTrace_create (w : World F M) (source : Text) (h : Handle) :
    (w.create source).2.emissionTrace w h = [] := by
  unfold emissionTrace
  rw [since_of_history_eq (w.history_create source)]
  rfl

/-- What a step reports of a tokenizer's emissions is what it has emitted more, if it
traces. -/
theorem Step.emissionTrace_eq {w v : World F M} (hs : Step w v) {h : Handle}
    (hh : h < w.shelf.next) :
    v.emissionTrace w h =
      if (w.get h).traced then (v.get h).emissions.drop (w.get h).emissions.length else [] := by
  unfold emissionTrace
  rcases (hs.get_cases hh).2 with ⟨hsame, hspares⟩ | ⟨c, rfl⟩
  · -- The step does not tell this tokenizer anything, so it emits nothing, and none of the events
    -- is a report of an emission of it.
    have hnone : ∀ e ∈ v.since w, e.emission? h = none := by
      intro e he
      by_cases hhandle : e.handle = h
      · exact (hspares e he hhandle).emission?_eq_none h
      · exact Event.emission?_eq_none_of_ne hhandle
    rw [List.filterMap_eq_nil_iff.mpr hnone, hsame]
    simp
  · -- The reports of a command are those of what it has emitted.
    have hreports : ∀ es : List (Emission F),
        ((es.map Record.emitted).map (.reported h)).filterMap (Event.emission? h) = es := by
      intro es
      simp [List.filterMap_map, Function.comp_def, Event.emission?]
    rw [since_of_history_eq (w.history_tell h c), get_tell,
      (c.precedes_apply _).reportsSince_eq]
    unfold Tokenizer.recordsOf
    split
    · rw [List.filterMap_cons_none rfl, hreports]
    · rfl

/-- **A tracing tokenizer reports what it emits**, in order and nothing else. -/
theorem Reaches.emissions_eq {w v : World F M} (hr : w.Reaches v) {h : Handle}
    (hh : h < w.shelf.next) (htraced : (w.get h).traced = true) :
    (v.get h).emissions = (w.get h).emissions ++ v.emissionTrace w h := by
  induction hr with
  | refl => simp
  | @tail u v hu hs ih =>
      have hh' := Reaches.lt_next hu hh
      -- A tokenizer keeps the flag of its creation, so each step reports what it has added.
      have htraced' : (u.get h).traced = true := (Reaches.precedes hu hh).traced_eq.trans htraced
      obtain ⟨added, hadded⟩ := (Reaches.precedes (.single hs) hh').emissions_grow
      have hstep := hs.emissionTrace_eq hh'
      rw [if_pos htraced', ← hadded, List.drop_left] at hstep
      rw [Reaches.emissionTrace_append hu (.single hs), hstep, ← List.append_assoc, ← ih, hadded]

/-- **A tokenizer that does not trace reports none of what it emits.** -/
theorem Reaches.emissionTrace_eq_nil {w v : World F M} (hr : w.Reaches v) {h : Handle}
    (hh : h < w.shelf.next) (htraced : (w.get h).traced = false) : v.emissionTrace w h = [] := by
  induction hr with
  | refl => exact w.emissionTrace_self h
  | @tail u v hu hs ih =>
      have htraced' : (u.get h).traced = false := (Reaches.precedes hu hh).traced_eq.trans htraced
      have hstep := hs.emissionTrace_eq (Reaches.lt_next hu hh)
      rw [Reaches.emissionTrace_append hu (.single hs), ih, hstep]
      simp [htraced']

/-- Ranges without a gap stay so while start and cursor are not assigned. -/
theorem Reaches.retold {w v : World F M} (hr : w.Reaches v) {h : Handle}
    (hh : h < w.shelf.next) (hw : (w.get h).Retold) (hassign : ∀ e ∈ v.since w, ¬e.Assigns h) :
    (v.get h).Retold := by
  have hkept := hr.rel_get (R := fun t u => t.Retold → u.Retold) (fun _ ht => ht)
    (fun _ _ _ htu hux ht => hux (htu ht)) hh
    fun c t hc ht => ht.apply (isPublic_of_mem_since hassign hc)
  exact hkept hw

end World

/-- **The trace retells the tokens.** Take a tokenizer that is created while traces of tokens
are switched on, and a program that goes on from there, under whatever settings. The reports
of its emissions are then one for each of its tokens, in order. If the start and the cursor were
never assigned, their ranges lead from the beginning of the source to the start, each one
going on where the last one ended, and each holds the token's lexeme. Of a tokenizer that is
created with such traces switched off there is no report of this kind, ever. -/
theorem emission_trace_retells [Callable F] (machine : Machine F M) (fuel : Nat)
    (p : Program F M α) (w : World F M) (source : Text) :
    let h := (w.create source).1
    let v := (machine.exec fuel p (w.create source).2).2
    (w.settings.tracesTokens = true →
      (v.get h).tokens = (v.emissionTrace w h).map (·.token) ∧
        ((∀ e ∈ v.since w, ¬e.Assigns h) →
          Emission.Tiled source 0 (v.emissionTrace w h) (v.get h).start)) ∧
      (w.settings.tracesTokens = false → v.emissionTrace w h = []) ∧
      ∀ e : Emission F, (Record.emitted e).channel = .tokenizer ∧
        (Record.emitted e).level = .debug ∧
        (Record.emitted e).message = "Emitted " ++ e.token.render ++ " at " ++
          toString e.start ++ ":" ++ toString e.stop := by
  intro h v
  have hr : (w.create source).2.Reaches v := machine.exec_reaches fuel p _
  have hh : h < (w.create source).2.shelf.next := w.lt_next_create source
  have hnew : (w.create source).2.get h = { source, traced := w.settings.tracesTokens } :=
    w.get_create source
  rw [(w.reaches_create source).emissionTrace_append hr, World.emissionTrace_create,
    List.nil_append]
  refine ⟨?_, ?_, fun e => ⟨rfl, rfl, Record.message_emitted e⟩⟩
  · intro htraced
    -- A new tokenizer has emitted nothing, so all its emissions are in the trace.
    have hemissions : (v.get h).emissions = v.emissionTrace (w.create source).2 h := by
      rw [hr.emissions_eq hh (by rw [hnew]; exact htraced), hnew]
      rfl
    rw [← hemissions]
    refine ⟨rfl, ?_⟩
    intro hassign
    have hretold := hr.retold hh (by rw [hnew]; exact Tokenizer.retold_new ..)
      fun e he => hassign e (hr.mem_since_of_create he)
    have htiled := hretold.tiled
    rwa [hr.source_eq hh, hnew] at htiled
  · intro htraced
    exact hr.emissionTrace_eq_nil hh (by rw [hnew]; exact htraced)

/-- Traces of tokens are switched off after the tokenizer is created, or switched on. In both
cases those settings count that were in force before. -/
theorem emission_trace_retells_switched :
    let loud : Settings Ini.StateId := { traceTokens := .int 1 }
    let source : Text := "a\n ; b".toList
    let p (settings : Settings Ini.StateId) : Program Ini.StateId Unit Unit := do
      Program.configure settings
      Program.tell 0 .advance
      let _ ← Program.attempt (Program.tell 0 (.tokenizeNext (-1) .none))
      Program.tell 0 (.tokenizeNext 1 (.str "end"))
      let _ ← Program.run 0 (Ini.handOver id .line)
    let w (settings : Settings Ini.StateId) : World Ini.StateId Unit := { settings, memory := () }
    let v := (Ini.machine.exec 20 (p .default) ((w loud).create source).2).2
    let v' := (Ini.machine.exec 20 (p loud) ((w .default).create source).2).2
    (v.get 0).tokens = (v.emissionTrace (w loud) 0).map (·.token) ∧
      Emission.Tiled source 0 (v.emissionTrace (w loud) 0) (v.get 0).start ∧
      (v.emissionTrace (w loud) 0).map (fun e => (e.start, e.stop))
        = [(0, 1), (1, 2), (2, 3), (3, 6)] ∧
      (v'.get 0).tokens.length = 4 ∧ v'.emissionTrace (w .default) 0 = [] := by
  intro loud source p w v v'
  have htraced := (emission_trace_retells Ini.machine 20 (p .default) (w loud) source).1 rfl
  have hquiet := (emission_trace_retells Ini.machine 20 (p loud) (w .default) source).2.1 rfl
  refine ⟨htraced.1, htraced.2 ?_, ?_, ?_, hquiet⟩
  · decide +kernel
  · decide +kernel
  · decide +kernel

end LexChain
