import LexChain.Proofs.Growth
import LexChain.Proofs.Locality
import LexChain.Proofs.Log
import LexChain.Proofs.Trail

/-!
# `LexChain.Proofs.Separation`: tokenizers do not interfere

A program can work on any number of tokenizers by turns, and take lists of their tokens. Its
`transcript` lists, in order, which tokenizers it created, what it did to which of them and what
came of it, which lists it took and which of these it emptied. What it does under which settings, in
which scope, and what it makes of a fault is left to the program; what the states do in turn is no
part of the transcript.

On a machine of local states each tokenizer has a history of its own. `Machine.perform` performs
uses of a tokenizer one after the other, whether they fail or not. A transcript `Retraces` from one
world to another if the uses of a single tokenizer in it, performed alone, lead to the same
outcomes and to the same tokenizer, and if the lists hold what they held when they were taken, those
apart that were emptied (`Entry.Leaves`). This holds of every transcript
(`Machine.IsLocal.retraces`), because it holds of one use and is kept when one transcript follows
another (`Retraces.append`).
-/

set_option autoImplicit false

namespace LexChain

variable {F M α : Type}

/-! ### Uses of a tokenizer -/

/-- What can be done to a tokenizer. -/
inductive Use (F : Type) where
  | ask (q : Query)
  | tell (c : Command F)
  | run (initial : Value F)
  | call (f : F)

namespace Use

/-- The type of what comes of a use. -/
abbrev Result : Use F → Type
  | ask q => q.Answer F
  | tell _ => Unit
  | run _ => List (Token F)
  | call _ => Value F

/-- The program that makes a use of the tokenizer of a handle. -/
def program (h : Handle) : (u : Use F) → Program F M u.Result
  | ask q => .ask h q
  | tell c => .tell h c
  | run initial => .run h initial
  | call f => .call f h

end Use

/-- A use and its outcome, which is `none` if the fuel did not last. -/
structure Done (F : Type) where
  use : Use F
  outcome : Option (Except Fault use.Result)

/-- What a transcript lists. -/
inductive Entry (F : Type) where
  | opened (h : Handle) (source : Text)
  | used (h : Handle) (d : Done F)
  /-- The tokens were asked for, and what is in the answer is kept as a list with a number. -/
  | kept (h : Handle) (k : ListId) (items : List (Token F))
  | emptied (k : ListId)

namespace Entry

/-- The use of the tokenizer of a handle that an entry is. -/
def on? (h : Handle) : Entry F → Option (Done F)
  | used k d => if k = h then some d else none
  | kept k _ items => if k = h then some ⟨.ask .tokens, some (.ok items)⟩ else none
  | opened _ _ | emptied _ => none

/-- What these entries leave of a list: what was in it, or nothing if one of them emptied it. -/
def Leaves (entries : List (Entry F)) (k : ListId) (items left : List (Token F)) : Prop :=
  (.emptied k ∉ entries → left = items) ∧ (.emptied k ∈ entries → left = [])

/-- The list that an entry emptied. -/
def emptied? : Entry F → Option ListId
  | emptied k => some k
  | _ => none

/-- Whether a list was emptied can be computed. -/
instance (k : ListId) (entries : List (Entry F)) : Decidable (.emptied k ∈ entries) :=
  decidable_of_iff (some k ∈ entries.map emptied?) <| by
    have hemptied : ∀ e : Entry F, e.emptied? = some k ↔ e = .emptied k := by
      intro e
      cases e <;> simp [emptied?]
    simp [List.mem_map, hemptied]

variable {entries entries' : List (Entry F)} {k : ListId} {items left left' : List (Token F)}

/-- Entries that empty no list leave all as they are. -/
theorem leaves_of_forall (hentries : .emptied k ∉ entries) (hleft : left = items) :
    Leaves entries k items left :=
  ⟨fun _ => hleft, fun hmem => absurd hmem hentries⟩

/-- More entries leave what is left of what was left. -/
theorem Leaves.append (hfirst : Leaves entries k items left)
    (hsecond : Leaves entries' k left left') : Leaves (entries ++ entries') k items left' := by
  unfold Leaves
  rw [List.mem_append, not_or]
  refine ⟨fun ⟨hnone, hnone'⟩ => (hsecond.1 hnone').trans (hfirst.1 hnone), fun hmem => ?_⟩
  by_cases hlater : .emptied k ∈ entries'
  · exact hsecond.2 hlater
  · exact (hsecond.1 hlater).trans (hfirst.2 (hmem.resolve_right hlater))

end Entry

/-! ### Transcripts -/

/-- What is done from each world on. -/
abbrev Transcript (F M : Type) := Log F M (Entry F)

variable [Callable F]

/-- The transcript of a use alone. -/
def Use.transcript (enter : F → Handle → Execution F M (Value F)) (fuel : Nat) (h : Handle)
    (u : Use F) : Transcript F M :=
  fun w => [.used h ⟨u, ((u.program h).exec enter fuel w).1⟩]

/-- The transcript of a program, given what calling a callable does. Whoever takes a list asks for
the tokens, and keeps what is in it then. -/
def Program.transcript (enter : F → Handle → Execution F M (Value F)) (fuel : Nat) :
    {α : Type} → Program F M α → Transcript F M
  | _, .bind p k =>
    (p.transcript enter fuel).andThen (p.exec enter fuel) fun a => (k a).transcript enter fuel
  | _, .attempt p => p.transcript enter fuel
  | _, .iterate step seed =>
    Log.iterate (fun s => (step s).transcript enter fuel)
      (fun s => (step s).exec enter fuel) fuel seed
  | _, .within scope p => fun w =>
    p.transcript enter fuel { w with settings := scope.entry w.settings }
  | _, .create source => fun w => [.opened (w.create source).1 source]
  | _, .ask h q => (Use.ask q).transcript enter fuel h
  | _, .tell h c => (Use.tell c).transcript enter fuel h
  | _, .run h initial => (Use.run initial).transcript enter fuel h
  | _, .call f h => (Use.call f).transcript enter fuel h
  | _, .hold h => fun w => [.kept h (w.hold h).1 ((w.hold h).2.held (w.hold h).1)]
  | _, .clear k => fun _ => [.emptied k]
  | _, .pure _ | _, .fail _ | _, .held _ | _, .settings | _, .configure _ | _, .memory
  | _, .remember _ => fun _ => []

/-- An entry of two lists in a row stands in the first one or in the second. -/
theorem split_of_append {ε : Type} {es fs before rest : List ε} {e : ε}
    (hsplit : es ++ fs = before ++ e :: rest) :
    (∃ between, fs = between ++ e :: rest) ∨
      ∃ between, es = before ++ e :: between ∧ between ++ fs = rest := by
  rcases List.append_eq_append_iff.mp hsplit with ⟨between, -, hrest⟩ | ⟨between, rfl, hrest⟩
  · exact .inl ⟨between, hrest⟩
  · cases between with
    | nil => exact .inl ⟨[], hrest.symm⟩
    | cons e' between =>
        obtain ⟨rfl, hlater⟩ := List.cons.inj hrest
        exact .inr ⟨between, rfl, hlater.symm⟩

/-- The entry of a list with one entry is this one. -/
theorem split_of_singleton {ε : Type} {before rest : List ε} {e e' : ε}
    (hsplit : [e'] = before ++ e :: rest) : before = [] ∧ e = e' ∧ rest = [] := by
  cases before with
  | nil =>
      obtain ⟨rfl, rfl⟩ := List.cons.inj hsplit
      exact ⟨rfl, rfl, rfl⟩
  | cons e'' before => simp at hsplit

namespace Machine

/-- The transcript of a program on a machine. -/
def transcript (machine : Machine F M) (fuel : Nat) (p : Program F M α) : Transcript F M :=
  p.transcript (machine.enter fuel) fuel

/-- Uses of one tokenizer performed one after the other, whatever their outcomes. -/
def perform (machine : Machine F M) (fuel : Nat) (h : Handle) :
    List (Use F) → World F M → List (Done F) × World F M
  | [], w => ([], w)
  | u :: us, w =>
    let performed := machine.exec fuel (u.program h) w
    let rest := perform machine fuel h us performed.2
    (⟨u, performed.1⟩ :: rest.1, rest.2)

/-- Uses performed in two stretches. -/
theorem perform_append (machine : Machine F M) (fuel : Nat) (h : Handle) (us us' : List (Use F))
    (w : World F M) :
    machine.perform fuel h (us ++ us') w =
      let first := machine.perform fuel h us w
      let rest := machine.perform fuel h us' first.2
      (first.1 ++ rest.1, rest.2) := by
  induction us generalizing w with
  | nil => rfl
  | cons u us ih => simp only [List.cons_append, perform, ih]

/-- The uses, performed on the tokenizer of a handle, have just these outcomes, and lead to a given
tokenizer, but for whether it traces. -/
def Repeats (machine : Machine F M) (fuel : Nat) (h : Handle) (w : World F M)
    (own : List (Done F)) (t : Tokenizer F) : Prop :=
  (machine.perform fuel h (own.map Done.use) w).1 = own ∧
    ((machine.perform fuel h (own.map Done.use) w).2.get h).quiet = t.quiet

variable {machine : Machine F M} {fuel : Nat} {h : Handle} {w : World F M} {t t' : Tokenizer F}

/-- With nothing done a tokenizer has to be as it is. -/
theorem repeats_nil (ht : (w.get h).quiet = t.quiet) : machine.Repeats fuel h w [] t :=
  ⟨rfl, ht⟩

/-- Uses that can be repeated from where others have led to. -/
theorem Repeats.append {own own' : List (Done F)} (hown : machine.Repeats fuel h w own t)
    (hown' : ∀ w' : World F M, t.quiet = (w'.get h).quiet → machine.Repeats fuel h w' own' t') :
    machine.Repeats fuel h w (own ++ own') t' := by
  obtain ⟨hdone, hquiet⟩ := hown
  obtain ⟨hdone', hquiet'⟩ := hown' _ hquiet.symm
  unfold Repeats
  rw [List.map_append, perform_append]
  dsimp only
  rw [hdone, hdone']
  exact ⟨rfl, hquiet'⟩

/-! ### Transcripts that can be retraced -/

/-- What a transcript from one world to another lists has these effects, tokenizer by tokenizer and
list by list. -/
structure Retraces (machine : Machine F M) (fuel : Nat) (w : World F M)
    (entries : List (Entry F)) (v : World F M) : Prop where
  lt_next : ∀ h, h < w.shelf.next → h < v.shelf.next
  /-- The uses of a tokenizer that was there before can be repeated on one that stood alike. -/
  old : ∀ h, h < w.shelf.next → ∀ (x : World F M) (k : Handle),
    (w.get h).quiet = (x.get k).quiet →
      machine.Repeats fuel k x (entries.filterMap (Entry.on? h)) (v.get h)
  /-- Those of a tokenizer that was created can be repeated on a new one over the same text. -/
  new : ∀ before h source rest, entries = before ++ .opened h source :: rest →
    h < v.shelf.next ∧ ∀ x : World F M, machine.Repeats fuel (x.create source).1
      (x.create source).2 (rest.filterMap (Entry.on? h)) (v.get h)
  handed_le : w.shelf.handed.length ≤ v.shelf.handed.length
  /-- A list that was taken before keeps what is in it, or is emptied. -/
  lists_old : ∀ k, k < w.shelf.handed.length → Entry.Leaves entries k (w.held k) (v.held k)
  /-- So does one that was taken on the way, from then on. -/
  lists_new : ∀ before h k items rest, entries = before ++ .kept h k items :: rest →
    k < v.shelf.handed.length ∧ Entry.Leaves rest k items (v.held k)

namespace Retraces

variable {v u : World F M} {entries entries' : List (Entry F)}

/-- With nothing done all tokenizers and lists have to be the same. -/
theorem nil (hshelf : v.shelf = w.shelf) : machine.Retraces fuel w [] v where
  lt_next h hh := hshelf ▸ hh
  old h _ x k hx := by
    refine repeats_nil (hx.symm.trans ?_)
    unfold World.get
    rw [hshelf]
  new := by simp
  handed_le := by rw [hshelf]
  lists_old k _ := by
    refine Entry.leaves_of_forall List.not_mem_nil ?_
    unfold World.held
    rw [hshelf]
  lists_new := by simp

/-- **One transcript after another.** A tokenizer that was created in the first part was there
before the second one, and so was a list that was taken in it. -/
theorem append (hfirst : machine.Retraces fuel w entries v)
    (hsecond : machine.Retraces fuel v entries' u) :
    machine.Retraces fuel w (entries ++ entries') u where
  lt_next h hh := hsecond.lt_next h (hfirst.lt_next h hh)
  old h hh x k hx := by
    rw [List.filterMap_append]
    exact (hfirst.old h hh x k hx).append fun x' hx' =>
      hsecond.old h (hfirst.lt_next h hh) x' k hx'
  -- A tokenizer opened by the second part is retraced by that part. One opened by the first
  -- goes on as an old one of the second.
  new before h source rest hsplit := by
    rcases split_of_append hsplit with ⟨between, hrest⟩ | ⟨between, hrest, rfl⟩
    · exact hsecond.new between h source rest hrest
    · obtain ⟨hlt, hown⟩ := hfirst.new before h source between hrest
      refine ⟨hsecond.lt_next h hlt, fun x => ?_⟩
      rw [List.filterMap_append]
      exact (hown x).append fun x' hx' => hsecond.old h hlt x' _ hx'
  handed_le := Nat.le_trans hfirst.handed_le hsecond.handed_le
  -- For the lists handed out the argument is the same.
  lists_old k hk :=
    (hfirst.lists_old k hk).append (hsecond.lists_old k (Nat.lt_of_lt_of_le hk hfirst.handed_le))
  lists_new before h k items rest hsplit := by
    rcases split_of_append hsplit with ⟨between, hrest⟩ | ⟨between, hrest, rfl⟩
    · exact hsecond.lists_new between h k items rest hrest
    · obtain ⟨hlt, hleaves⟩ := hfirst.lists_new before h k items between hrest
      exact ⟨Nat.lt_of_lt_of_le hlt hsecond.handed_le, hleaves.append (hsecond.lists_old k hlt)⟩

end Retraces

end Machine

omit [Callable F] in
/-- A use works on the tokenizer of its handle only. -/
theorem Use.mirrors_program (u : Use F) (h k : Handle) :
    (u.program h : Program F M u.Result).Mirrors h k (u.program k) := by
  cases u with
  | ask q => exact .step (.ask q)
  | tell c => exact .step (.tell c)
  | run initial => exact .step (.run initial)
  | call f => exact .step (.call f)

namespace Machine

variable {machine : Machine F M} {fuel : Nat}

/-- A use can be retraced. -/
theorem IsLocal.retraces_use (hlocal : machine.IsLocal) (u : Use F) (h : Handle) (w : World F M) :
    machine.Retraces fuel w (u.transcript (machine.enter fuel) fuel h w)
      (machine.exec fuel (u.program h) w).2 := by
  -- The use is mirrored by the same use of another tokenizer in another world, if the two
  -- tokenizers are the same but for their reports.
  have hboth : ∀ k, (machine.exec fuel (u.program h)).Mirrors (M := M) h k
      (machine.exec fuel (u.program k)) :=
    fun k => (u.mirrors_program h k).relates hlocal fuel
  have hmirrors := fun k => Execution.mirrors_iff.mp (hboth k)
  have hself := (hmirrors h w w rfl).2
  have hentry : u.transcript (machine.enter fuel) fuel h w
      = [.used h ⟨u, (machine.exec fuel (u.program h) w).1⟩] := rfl
  rw [hentry]
  refine ⟨hself.lt_next, ?_, fun _ _ _ _ hsplit => (by cases (split_of_singleton hsplit).2.1),
    Nat.le_of_eq hself.handed_eq.symm, ?_,
    fun _ _ _ _ _ hsplit => (by cases (split_of_singleton hsplit).2.1)⟩
  · -- For the tokenizer used, its own part of the transcript is this use. For all others it is
    -- empty, and they stand as they stood.
    intro j _ x k hx
    by_cases hj : h = j
    · subst hj
      obtain ⟨houtcome, hafter⟩ := hmirrors k w x hx
      have hown : [Entry.used h ⟨u, (machine.exec fuel (u.program h) w).1⟩].filterMap
          (Entry.on? h) = [⟨u, (machine.exec fuel (u.program h) w).1⟩] := by simp [Entry.on?]
      rw [hown]
      refine ⟨?_, hafter.after.symm⟩
      simp only [List.map_cons, List.map_nil, perform, houtcome]
    · have hown : [Entry.used h ⟨u, (machine.exec fuel (u.program h) w).1⟩].filterMap
          (Entry.on? j) = [] := by simp [Entry.on?, hj]
      rw [hown]
      refine repeats_nil (hx.symm.trans ?_)
      rw [hself.get_eq j (Ne.symm hj)]
  · exact fun k _ => Entry.leaves_of_forall (by simp) (hself.held_eq k)

/-- A creation can be retraced: there is a new tokenizer, and all else stays. -/
theorem retraces_create (w : World F M) (source : Text) :
    machine.Retraces fuel w [.opened (w.create source).1 source] (w.create source).2 := by
  refine ⟨fun j hj => (w.reaches_create source).lt_next hj, ?_, ?_, Nat.le_refl _, ?_,
    fun _ _ _ _ _ hsplit => (by cases (split_of_singleton hsplit).2.1)⟩
  · intro j hj x k hx
    refine repeats_nil (hx.symm.trans ?_)
    rw [w.get_create_of_ne source (Nat.ne_of_lt hj)]
  · intro before j source' rest hsplit
    obtain ⟨rfl, hopened, rfl⟩ := split_of_singleton hsplit
    obtain ⟨rfl, rfl⟩ := Entry.opened.inj hopened
    refine ⟨w.lt_next_create _, fun x => repeats_nil ?_⟩
    rw [x.get_create, w.get_create]
    rfl
  · exact fun k _ => Entry.leaves_of_forall (by simp) (w.held_create source k)

/-- A list that is taken is one more, and what is in it is the answer to the question for the
tokens. -/
theorem retraces_hold (w : World F M) (h : Handle) :
    machine.Retraces fuel w [.kept h (w.hold h).1 ((w.hold h).2.held (w.hold h).1)]
      (w.hold h).2 := by
  have hitems : (w.hold h).2.held (w.hold h).1 = (w.get h).tokens := w.shelf.held_hold h
  have hlength : (w.hold h).2.shelf.handed.length = w.shelf.handed.length + 1 :=
    w.shelf.handed_length_hold h
  refine ⟨fun _ hj => hj, ?_, fun _ _ _ _ hsplit => (by cases (split_of_singleton hsplit).2.1),
    by omega, ?_, ?_⟩
  · -- Holding a list is, to the tokenizer, the question for its tokens.
    intro j _ x k hx
    by_cases hj : h = j
    · subst hj
      have htokens : (x.get k).tokens = (w.hold h).2.held (w.hold h).1 := by
        rw [hitems, (Tokenizer.eq_of_quiet_eq hx).1]
      have hown : [Entry.kept h (w.hold h).1 ((w.hold h).2.held (w.hold h).1)].filterMap
          (Entry.on? h) = [⟨.ask .tokens, some (.ok (x.get k).tokens)⟩] := by
        simp [Entry.on?, htokens]
      rw [hown]
      exact ⟨rfl, hx.symm⟩
    · have hown : [Entry.kept h (w.hold h).1 ((w.hold h).2.held (w.hold h).1)].filterMap
          (Entry.on? j) = [] := by simp [Entry.on?, hj]
      rw [hown]
      exact repeats_nil hx.symm
  · exact fun k hk => Entry.leaves_of_forall (by simp)
      (w.shelf.held_hold_of_ne h (Nat.ne_of_lt hk))
  · intro before j k items rest hsplit
    obtain ⟨rfl, hkept, rfl⟩ := split_of_singleton hsplit
    obtain ⟨rfl, rfl, rfl⟩ := Entry.kept.inj hkept
    refine ⟨?_, Entry.leaves_of_forall List.not_mem_nil rfl⟩
    rw [hlength]
    exact Nat.lt_succ_self _

/-- To empty a list changes this one only, and no tokenizer. -/
theorem retraces_clear (w : World F M) (k : ListId) :
    machine.Retraces fuel w [.emptied k] (w.clear k) := by
  have hnext : (w.clear k).shelf.next = w.shelf.next :=
    congrArg List.length (w.shelf.toList_clear k)
  have hlength : (w.clear k).shelf.handed.length = w.shelf.handed.length :=
    congrArg List.length (w.shelf.handed_clear k)
  refine ⟨fun j hj => hnext ▸ hj, ?_,
    fun _ _ _ _ hsplit => (by cases (split_of_singleton hsplit).2.1),
    Nat.le_of_eq hlength.symm, ?_,
    fun _ _ _ _ _ hsplit => (by cases (split_of_singleton hsplit).2.1)⟩
  · -- No tokenizer is touched, and of the lists only the one that is emptied.
    intro j _ x i hx
    refine repeats_nil (hx.symm.trans ?_)
    rw [w.get_clear]
  · intro j _
    by_cases hj : j = k
    · subst hj
      exact ⟨fun hnone => absurd (List.mem_singleton.mpr rfl) hnone,
        fun _ => w.shelf.held_clear j⟩
    · exact Entry.leaves_of_forall (by simpa using hj) (w.shelf.held_clear_of_ne hj)

/-- Transcripts that can be retraced follow one another. -/
theorem retraces_isLaw : Log.IsLaw (machine.Retraces fuel) where
  nil _ := .nil rfl
  append := .append

/-- What an execution does from any world on can be retraced. -/
abbrev Retraced (machine : Machine F M) (fuel : Nat) (x : Execution F M α)
    (l : Transcript F M) : Prop := x.Keeps (machine.Retraces fuel) l

/-- With no entry all tokenizers and lists have to stay. -/
theorem retraced_nil {x : Execution F M α} (hshelf : ∀ w, (x w).2.shelf = w.shelf) :
    machine.Retraced fuel x fun _ => [] :=
  fun w => .nil (hshelf w)

/-- Retracing is about tokenizers and lists, so a scope makes no difference. -/
theorem Retraced.within {x : Execution F M α} {l : Transcript F M}
    (hx : machine.Retraced fuel x l) (scope : Scope F) :
    machine.Retraced fuel (x.within scope)
      fun w => l { w with settings := scope.entry w.settings } :=
  fun w => { hx { w with settings := scope.entry w.settings } with }

/-- **Every transcript on a local machine can be retraced**, tokenizer by tokenizer and list by
list. -/
theorem IsLocal.retraces (hlocal : machine.IsLocal) (fuel : Nat) (p : Program F M α)
    (w : World F M) :
    machine.Retraces fuel w (machine.transcript fuel p w) (machine.exec fuel p w).2 := by
  have hprogram : machine.Retraced fuel (machine.exec fuel p) (machine.transcript fuel p) := by
    -- Induction on the program. Retracing is a law of logs, so that sequences and loops carry
    -- it from their parts.
    induction p with
    | bind p k ihp ihk => exact ihp.bind retraces_isLaw ihk
    | attempt p ih => exact ih.attempt
    | iterate step seed ih => exact .iterate retraces_isLaw ih fuel seed
    | within scope p ih => exact ih.within scope
    | create source => exact fun w => retraces_create w source
    | ask h q => exact hlocal.retraces_use (.ask q) h
    | tell h c => exact hlocal.retraces_use (.tell c) h
    | run h initial => exact hlocal.retraces_use (.run initial) h
    | call f h => exact hlocal.retraces_use (.call f) h
    | hold h => exact fun w => retraces_hold w h
    | clear k => exact fun w => retraces_clear w k
    | _ => exact retraced_nil fun _ => rfl
  exact hprogram w

/-- **A list that is kept of a run holds what the run came to.** -/
theorem exec_runHeld {h : Handle} {initial : Value F} {w v : World F M} {ts : List (Token F)}
    (hrun : machine.exec fuel (.run h initial) w = (some (.ok ts), v)) :
    machine.exec fuel (.runHeld h initial) w = (some (.ok (v.hold h).1), (v.hold h).2) ∧
      (v.hold h).2.held (v.hold h).1 = ts := by
  obtain ⟨_, _, _, _, _, _, _, hstop⟩ := Chain.run_ok hrun
  refine ⟨Execution.bind_of_ok hrun _, ?_⟩
  rw [(Chain.stop_eq_ok hstop).1]
  exact v.shelf.held_hold h

end Machine

/-- **Tokenizers do not interfere.** Take any program that works on tokenizers by turns, on a
machine of local states.

* For each tokenizer that it creates: the same uses of it, in the same order but without anything
  else in between, made of a new tokenizer over the same text in any world, have the same outcomes,
  and lead to the same tokens, the same start and the same cursor.
* A list of tokens that it took, or that was there before, holds what it held then, however the
  tokenizers went on, unless it was emptied, and nothing if it was.
* A list that is kept of a run holds the tokens that the run came to, and keeping it changes no
  tokenizer.
* To empty a list changes no other list and no tokenizer. -/
theorem tokenizers_do_not_interfere {machine : Machine F M} (hlocal : machine.IsLocal) (fuel : Nat)
    (p : Program F M α) (w : World F M) :
    let entries := machine.transcript fuel p w
    let after := (machine.exec fuel p w).2
    (∀ before h source rest, entries = before ++ .opened h source :: rest →
      let own := rest.filterMap (Entry.on? h)
      ∀ x : World F M,
        let fresh := x.create source
        let alone := machine.perform fuel fresh.1 (own.map Done.use) fresh.2
        alone.1 = own ∧
          (alone.2.get fresh.1).tokens = (after.get h).tokens ∧
          (alone.2.get fresh.1).start = (after.get h).start ∧
          (alone.2.get fresh.1).position = (after.get h).position) ∧
    (∀ before h k items rest, entries = before ++ .kept h k items :: rest →
      (.emptied k ∉ rest → after.held k = items) ∧ (.emptied k ∈ rest → after.held k = [])) ∧
    (∀ k, k < w.shelf.handed.length →
      (.emptied k ∉ entries → after.held k = w.held k) ∧
        (.emptied k ∈ entries → after.held k = [])) ∧
    (∀ h initial ts v, machine.exec fuel (.run h initial) w = (some (.ok ts), v) →
      ∃ k x, machine.exec fuel (.runHeld h initial) w = (some (.ok k), x) ∧ x.held k = ts ∧
        v.shelf.handed.length = k ∧ ∀ j, x.get j = v.get j) ∧
    ∀ k, ∃ x, machine.exec fuel (.clear k) w = (some (.ok ()), x) ∧ x.held k = [] ∧
      (∀ j, j ≠ k → x.held j = w.held j) ∧ ∀ h, x.get h = w.get h := by
  intro entries after
  have hretraces := hlocal.retraces fuel p w
  refine ⟨?_, ?_, hretraces.lists_old, ?_, ?_⟩
  · intro before h source rest hsplit own x fresh alone
    obtain ⟨hown, hquiet⟩ := (hretraces.new before h source rest hsplit).2 x
    exact ⟨hown, Tokenizer.eq_of_quiet_eq hquiet⟩
  · exact fun before h k items rest hsplit => (hretraces.lists_new before h k items rest hsplit).2
  · intro h initial ts v hrun
    obtain ⟨hkept, hitems⟩ := Machine.exec_runHeld hrun
    exact ⟨_, _, hkept, hitems, rfl, fun _ => rfl⟩
  · intro k
    exact ⟨w.clear k, rfl, w.shelf.held_clear k, fun _ => w.shelf.held_clear_of_ne, w.get_clear k⟩

/-- Two tokenizers by turns, with a command that fails and other settings from some moment on. A
list of the first one is taken and emptied, and so is the list of a run over the second one; another
list of this one goes on holding what it held. What was done to the second tokenizer gives the same
on one of its own. -/
theorem tokenizers_do_not_interfere_by_turns :
    let loud : Settings Ini.StateId := { traceStates := .bool true, traceTokens := .bool true }
    let machine : Machine Ini.StateId Unit := Ini.machine
    let p : Program Ini.StateId Unit Unit := do
      let a ← Program.create "k=v".toList
      let b ← Program.create "[s]".toList
      Program.tell a (.tokenizeNext 1 .text)
      let early ← Program.hold a
      let _ ← Program.attempt (Program.tell b (.tokenizeNext (-1) .text))
      Program.configure loud
      let kept ← Program.runHeld b (Ini.handOver id .line)
      let _ ← Program.hold b
      Program.clear kept
      Program.tell a (.setPosition 0)
      let _ ← Program.run a (Ini.handOver id .line)
      Program.clear early
    let w : World Ini.StateId Unit := { memory := () }
    let entries := machine.transcript 30 p w
    let own := entries.filterMap (Entry.on? 1)
    let alone := machine.perform 30 0 (own.map Done.use) (w.create "[s]".toList).2
    let after := (machine.exec 30 p w).2
    machine.IsLocal ∧ own.length = 4 ∧ alone.1 = own ∧
      (alone.2.get 0).tokens = (after.get 1).tokens ∧
      (alone.2.get 0).tokens.map Token.lexeme = ["[".toList, "s".toList, "]".toList] ∧
      (after.get 0).tokens.map Token.lexeme ≠ [] ∧ after.held 0 = [] ∧ after.held 1 = [] ∧
      (after.held 2).map Token.lexeme = ["[".toList, "s".toList, "]".toList] := by
  intro loud machine p w entries own alone after
  have hlocal : machine.IsLocal := Ini.machine_isLocal
  obtain ⟨hnew, hlists, _⟩ := tokenizers_do_not_interfere hlocal 30 p w
  have hopened : entries = [.opened 0 "k=v".toList] ++ .opened 1 "[s]".toList :: entries.drop 2 :=
    rfl
  have hkept : entries = entries.take 3 ++ .kept 0 0 [⟨"k".toList, .text⟩] :: entries.drop 4 := rfl
  obtain ⟨hown, htokens, _⟩ := hnew _ 1 _ _ hopened w
  have hemptied := (hlists _ 0 0 _ _ hkept).2 (by decide +kernel)
  refine ⟨hlocal, by decide +kernel, hown, htokens, by decide +kernel, by decide +kernel, hemptied,
    ?_, by decide +kernel⟩
  exact List.eq_nil_of_length_eq_zero (by decide +kernel)

end LexChain
