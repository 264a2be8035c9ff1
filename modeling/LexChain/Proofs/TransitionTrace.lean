import LexChain.Ini.States
import LexChain.Proofs.Growth
import LexChain.Proofs.Trail
import Mathlib.Data.List.Chain

/-!
# `LexChain.Proofs.TransitionTrace`: the reported transitions are the path taken

A run under settings that trace transitions reports one for each of its links, right after the
call, with the names of the two states and the cursor as the call left it. `Chain.Recorded`
says what becomes of these reports on the trail of a run: between them the history holds what
the calls did, reports of nested runs included, and nothing else; each goes on from the state
where the last one arrived; and the cursors do not decrease, if none was assigned.

`transition_trace_follows_path` says so for every run on every machine, whatever its outcome, and
how the run ended behind its last link. What decides is the settings that were in force when the
run began. Calls may replace them, and nothing of this changes.
-/

set_option autoImplicit false

namespace LexChain

variable {F M : Type}

namespace Chain

variable [Callable F]

/-- The record of the transition at a link. -/
def Link.transition (h : Handle) (l : Link F M) : Record F :=
  .moved l.source.name (l.target.map State.name) (l.left.get h).position

/-- What a run records of the transitions on its trail. The run began at a state and in a world,
with these settings, and its trail led to another state, or to the end of the chain, and to
another world; from there it ended with an outcome. -/
structure Recorded (settings : Settings F) (h : Handle) (s : Option (State F)) (w : World F M)
    (links : List (Link F M)) (last : Option (State F)) (u : World F M)
    (outcome : Option (Except Fault (List (Token F))) × World F M) : Prop where
  /-- There is what each call did, and then the transition, if transitions are traced. What
  happened behind the last link comes at the end. -/
  since_eq : outcome.2.since w = links.flatMap (fun l => l.left.since l.called ++
    if settings.tracesStates then [.reported h (l.transition h)] else []) ++ outcome.2.since u
  /-- With a result there is no more behind it than the warning of lost text. -/
  since_last : (∃ ts, outcome.1 = some (.ok ts)) →
    outcome.2.since u = (losses settings (u.get h)).map (.reported h)
  /-- The first link is at the state that the run began with. -/
  source_head : ∀ l, links.head? = some l → s = some l.source
  /-- Each other link is at the state that the one before it arrived at. -/
  successive : links.IsChain fun l l' => l.target = some l'.source
  target_getLast : ∀ l, links.getLast? = some l → l.target = last
  /-- The record names the two states and says where the cursor is. -/
  message : ∀ l : Link F M, (l.transition h).level = .debug ∧ (l.transition h).channel = .state ∧
    (l.transition h).message = l.source.name ++ " -> " ++
      (match l.target with
        | some t => t.name
        | none => "<done>") ++ " at " ++ toString (l.left.get h).position
  /-- While the cursor is not assigned the recorded ones do not decrease. -/
  positions : (∀ e ∈ outcome.2.since w, ¬e.Assigns h) →
    links.Pairwise fun l l' => (l.left.get h).position ≤ (l'.left.get h).position

variable {settings : Settings F} {h : Handle} {s last : Option (State F)} {w u : World F M}
  {links : List (Link F M)} {enter : F → Handle → Execution F M (Value F)}

/-- The message of a transition names the two states and the position. -/
theorem Link.message_transition (h : Handle) (l : Link F M) :
    (l.transition h).message = l.source.name ++ " -> " ++
      (match l.target with
        | some t => t.name
        | none => "<done>") ++ " at " ++ toString (l.left.get h).position := by
  unfold transition Record.message
  cases l.target <;> rfl

/-- The first link of a trail begins where the trail does. -/
theorem Trail.source_head (htrail : Trail enter settings h s w links last u) :
    ∀ l, links.head? = some l → s = some l.source := by
  cases htrail with
  | nil => simp
  | cons => simp

/-- A trail goes on from where the last link led. -/
theorem Trail.successive (htrail : Trail enter settings h s w links last u) :
    links.IsChain fun l l' => l.target = some l'.source := by
  induction htrail with
  | nil => exact .nil
  | cons _ _ _ hrest ih => exact List.isChain_cons.mpr ⟨hrest.source_head, ih⟩

/-- The last link of a trail leads to where the trail does. -/
theorem Trail.target_getLast (htrail : Trail enter settings h s w links last u) :
    ∀ l, links.getLast? = some l → l.target = last := by
  rcases htrail.eq_or_getLast with ⟨rfl, _, _⟩ | ⟨l', hlast, htarget, _⟩
  · simp
  · intro l hl
    rw [hlast] at hl
    exact (Option.some.inj hl) ▸ htarget

/-- **The cursor does not go back from call to call** while it is not assigned: neither from
the beginning of the trail to a link nor from one link to a later one. -/
theorem Trail.positions (henter : ∀ f h, (enter f h).Steps)
    (htrail : Trail enter settings h s w links last u) (hassign : ∀ e ∈ u.since w, ¬e.Assigns h) :
    (∀ l ∈ links, (w.get h).position ≤ (l.left.get h).position) ∧
      links.Pairwise fun l l' => (l.left.get h).position ≤ (l'.left.get h).position := by
  induction htrail with
  | nil => simp
  | @cons l links last u hmore hcall hresult hrest ih =>
      obtain ⟨hreaches, hsince⟩ := hrest.since_eq henter
      have hleft : l.called.Reaches l.left := (henter l.source.callee h).reaches hcall
      have harrived : l.left.Reaches (l.arrived settings h) := reaches_arrive ..
      rw [World.Reaches.since_append (hleft.trans harrived) hreaches,
        hleft.since_append harrived] at hassign
      obtain ⟨hfrom, hpairwise⟩ := ih fun e he => hassign e (List.mem_append_right _ he)
      -- There was a character left when the state was called, so the cursor was inside.
      have hinside : (l.called.get h).position ≤ (l.called.get h).size :=
        Int.le_of_lt (Tokenizer.lt_size_of_hasMore hmore)
      have hforward := hleft.forward (World.lt_next_of_hasMore hmore) fun e he =>
        hassign e (List.mem_append_left _ (List.mem_append_left _ he))
      have hcalled := (hforward hinside).1
      rw [get_arrived] at hfrom
      refine ⟨?_, List.pairwise_cons.mpr ⟨hfrom, hpairwise⟩⟩
      intro l' hl'
      rcases List.mem_cons.mp hl' with rfl | hl'
      · exact hcalled
      · exact Int.le_trans hcalled (hfrom l' hl')

/-- However a chain ends behind a trail, it ends by steps. -/
theorem Ending.reaches (henter : ∀ f h, (enter f h).Steps)
    {outcome : Option (Except Fault (List (Token F))) × World F M}
    (hending : Ending enter settings h s u outcome) : u.Reaches outcome.2 := by
  cases hending with
  | stopped _ => exact reaches_stop settings h u
  | failed _ hcall => exact (henter _ h).reaches hcall
  | refused _ hcall _ => exact (henter _ h).reaches hcall
  | unfinished _ hcall => exact (henter _ h).reaches hcall
  | exhausted _ => exact .refl

/-- With a result it has stopped, and reported what is lost. -/
theorem Ending.since_eq {outcome : Option (Except Fault (List (Token F))) × World F M}
    (hending : Ending enter settings h s u outcome) (hok : ∃ ts, outcome.1 = some (.ok ts)) :
    outcome.2.since u = (losses settings (u.get h)).map (.reported h) := by
  obtain ⟨ts, hok⟩ := hok
  cases hending with
  | stopped _ => exact since_stop settings h u
  | _ => cases hok

/-- **A trail and its end are recorded.** -/
theorem Trail.recorded (henter : ∀ f h, (enter f h).Steps)
    (htrail : Trail enter settings h s w links last u)
    {outcome : Option (Except Fault (List (Token F))) × World F M}
    (hending : Ending enter settings h last u outcome) :
    Recorded settings h s w links last u outcome := by
  obtain ⟨hreaches, hsince⟩ := htrail.since_eq henter
  have hall := hreaches.since_append (hending.reaches henter)
  refine ⟨?_, hending.since_eq, htrail.source_head, htrail.successive, htrail.target_getLast,
    fun l => ⟨rfl, rfl, l.message_transition h⟩, ?_⟩
  · -- The events of a link are those of its call and then its report, if the tracing was on.
    rw [hall, hsince]
    congr 2
    funext l
    unfold Link.events Link.reports
    split <;> rfl
  · intro hassign
    rw [hall] at hassign
    exact (htrail.positions henter fun e he => hassign e (List.mem_append_left _ he)).2

end Chain

/-- **The reported transitions are the path taken.** A run whose initial value is no state fails
at once and reports nothing. Every other run goes through some links, each a call that handed back
a valid value, and then ends, in one of the ways that there are. Its own reports of transitions
are one for each link, in order, if the settings in force when it began ask for them, and
otherwise there are none. -/
theorem transition_trace_follows_path [Callable F] (machine : Machine F M) (fuel : Nat)
    (h : Handle) (initial : Value F) (w : World F M) :
    (∀ e, initial.asState Chain.initialName = .error e →
      machine.exec fuel (.run h initial) w = (some (.error e), w)) ∧
    ∀ s, initial.asState Chain.initialName = .ok s →
      ∃ links last u, Chain.Trail (machine.enter fuel) w.settings h s w links last u ∧
        Chain.Ending (machine.enter fuel) w.settings h last u
          (machine.exec fuel (.run h initial) w) ∧
        Chain.Recorded w.settings h s w links last u (machine.exec fuel (.run h initial) w) := by
  have hrun : machine.exec fuel (.run h initial) w
      = Chain.run (machine.enter fuel) fuel h initial w := rfl
  rw [hrun]
  refine ⟨?_, ?_⟩
  · intro e he
    simp only [Chain.run, he]
  · intro s hs
    simp only [Chain.run, hs]
    -- The run is the path from its first state, and each ending leaves the records of the path.
    obtain ⟨links, last, u, htrail, hending⟩ :=
      Chain.follow_path (machine.enter fuel) w.settings h fuel s w
    exact ⟨links, last, u, htrail, hending, htrail.recorded (machine.steps_enter fuel) hending⟩

/-- The first state switches all reports off, the second one drives a chain of its own that
fails, and the third one hands back no state. The two valid links are recorded. -/
theorem transition_trace_follows_path_refused :
    let loud : Settings Ini.StateId := { traceStates := .str "yes" }
    let machine : Machine Ini.StateId Unit := fun s h => do
      Program.tell h .advance
      match s with
      | .line =>
        Program.configure { warnOnDropped := .none }
        return .callable .comment
      | .comment =>
        let _ ← Program.within (.given loud) (Program.attempt (Program.run h (.callable .key)))
        return Ini.handOver id .sectionName
      | .sectionName => return .int 3
      | .key => Program.fail (.raised .value "no key")
    let w : World Ini.StateId Unit := { settings := loud, memory := () }
    let run := machine.exec 9 (.run 0 (Ini.handOver id .line)) (w.create "a = b".toList).2
    Value.asState Chain.initialName (Ini.handOver id .line) = .ok (some (.of Ini.StateId.line)) ∧
      (∃ links last u, Chain.Recorded loud 0 (some (.of Ini.StateId.line))
        (w.create "a = b".toList).2 links last u run) ∧
      run.1 = some (.error (.notAState "section_state" "int")) ∧
      run.2.records.map Record.message =
        ["line_state -> comment_state at 1", "comment_state -> section_state at 3"] ∧
      machine.exec 9 (.run 0 (.str "x")) w = (some (.error (.notAState "<initial>" "str")), w) := by
  intro loud machine w run
  have hinitial : Value.asState Chain.initialName (Ini.handOver id .line)
      = .ok (some (.of Ini.StateId.line)) := rfl
  obtain ⟨links, last, u, _, _, hrecorded⟩ := (transition_trace_follows_path machine 9 0
    (Ini.handOver id .line) (w.create "a = b".toList).2).2 _ hinitial
  have hrefused := (transition_trace_follows_path machine 9 0 (.str "x") w).1 _ rfl
  have houtcome : run.1 = some (.error (.notAState "section_state" "int")) := by rfl
  have hmessages : run.2.records.map Record.message =
      ["line_state -> comment_state at 1", "comment_state -> section_state at 3"] := by
    decide +kernel
  exact ⟨hinitial, ⟨links, last, u, hrecorded⟩, houtcome, hmessages, hrefused⟩

end LexChain
