import LexChain.Proofs.Steps

/-!
# `LexChain.Proofs.Trail`: the links that a chain went through

A run of a chain is a sequence of links, each a call of a state that ended with a
valid value, from the state that the run began with up to the place where it
stopped. `Chain.Trail` is that sequence, with the worlds on the way, and says
nothing about what the calls did inside: a call may drive chains of its own.

`Chain.follow_path` says that every chain has such a trail, whatever its outcome, and
that it ends in one of the ways that `Chain.Ending` lists: it stops, at the end of the
chain or with no character left, or the last call yields no valid value. `Chain.run_ok`
is the case of a run that ends with a result, and so has stopped. What a run
adds to the history falls into what its calls did and what it reported on its own
account: `Chain.Trail.since_eq` for the links, `Chain.since_stop` for its end.
-/

set_option autoImplicit false

namespace LexChain.Chain

variable {F M : Type}

/-! ### Where a chain stops -/

variable {settings : Settings F} {h : Handle}

/-- What a value has to be to end a chain. -/
theorem asState_eq_none_iff {source : String} {v : Value F} :
    v.asState source = .ok none ↔ v = .none := by
  constructor
  · intro hv
    cases v <;> simp_all [Value.asState]
  · rintro rfl
    rfl

/-- What a chain reports on its own account when it stops. -/
def losses (settings : Settings F) (t : Tokenizer F) : List (Record F) :=
  if settings.warns && t.start != t.position then [.dropped t.pending t.start t.position] else []

/-- A chain ends with the tokens, and changes no tokenizer then. -/
theorem stop_eq_ok {u w' : World F M} {ts : List (Token F)}
    (hstop : stop settings h u = (some (.ok ts), w')) :
    ts = (w'.get h).tokens ∧ ∀ k, w'.get k = u.get k := by
  have hget : ∀ k, (stop settings h u).2.get k = u.get k := by
    intro k
    unfold stop
    dsimp only
    split <;> rfl
  have htokens : (stop settings h u).1 = some (.ok (u.get h).tokens) := rfl
  rw [hstop] at hget htokens
  refine ⟨?_, hget⟩
  rw [hget h]
  exact Except.ok.inj (Option.some.inj htokens)

/-- At its end a chain reports what is lost. -/
theorem since_stop (settings : Settings F) (h : Handle) (u : World F M) :
    (stop settings h u).2.since u = (losses settings (u.get h)).map (.reported h) := by
  apply World.since_of_history_eq
  unfold stop losses
  dsimp only
  split
  · exact u.history_report h _
  · exact (List.append_nil _).symm

/-! ### Links and trails -/

/-- A link of a chain: the state that was called, the world it was called in, the
value that it handed back, what this stands for, and the world that the call left. -/
structure Link (F M : Type) where
  source : State F
  called : World F M
  result : Value F
  target : Option (State F)
  left : World F M

/-- The last world of a link, when the transition has been reported. -/
def Link.arrived [Callable F] (settings : Settings F) (h : Handle) (l : Link F M) : World F M :=
  arrive settings h l.source l.target l.left

/-- What a chain reports on its own account at a link. -/
def Link.reports [Callable F] (settings : Settings F) (h : Handle) (l : Link F M) :
    List (Record F) :=
  if settings.tracesStates then
    [.moved l.source.name (l.target.map State.name) (l.left.get h).position]
  else []

/-- What happened from one link to the next. -/
def Link.events [Callable F] (settings : Settings F) (h : Handle) (l : Link F M) :
    List (Event F) :=
  l.left.since l.called ++ (l.reports settings h).map (.reported h)

variable [Callable F]

/-- From one state and world a chain went through some links to another state, or to
its end, and another world. Each state was called with a character left, and each
value that was handed back is a valid one. -/
inductive Trail (enter : F → Handle → Execution F M (Value F)) (settings : Settings F)
    (h : Handle) :
    Option (State F) → World F M → List (Link F M) → Option (State F) → World F M → Prop
  | nil (s : Option (State F)) (w : World F M) : Trail enter settings h s w [] s w
  | cons {l : Link F M} {links : List (Link F M)} {last : Option (State F)} {u : World F M}
      (hmore : (l.called.get h).hasMore = true)
      (hcall : enter l.source.callee h l.called = (some (.ok l.result), l.left))
      (hresult : l.result.asState l.source.name = .ok l.target)
      (hrest : Trail enter settings h l.target (l.arrived settings h) links last u) :
      Trail enter settings h (some l.source) l.called (l :: links) last u

/-- The ways in which a chain that has come to a state, or behind its last one, ends from
there without another link, with the outcome and the world that it leaves. -/
inductive Ending (enter : F → Handle → Execution F M (Value F)) (settings : Settings F)
    (h : Handle) :
    Option (State F) → World F M → Option (Except Fault (List (Token F))) × World F M → Prop
  /-- There is no state, or no character left. -/
  | stopped {s : Option (State F)} {u : World F M} (hstops : s = none ∨ (u.get h).hasMore = false) :
      Ending enter settings h s u (stop settings h u)
  /-- The state is called and fails. -/
  | failed {s : State F} {u v : World F M} {e : Fault} (hmore : (u.get h).hasMore = true)
      (hcall : enter s.callee h u = (some (.error e), v)) :
      Ending enter settings h (some s) u (some (.error e), v)
  /-- The state is called and hands back something that is no state. -/
  | refused {s : State F} {u v : World F M} {result : Value F} {e : Fault}
      (hmore : (u.get h).hasMore = true)
      (hcall : enter s.callee h u = (some (.ok result), v))
      (hresult : result.asState s.name = .error e) :
      Ending enter settings h (some s) u (some (.error e), v)
  /-- The state is called and the fuel does not last for it. -/
  | unfinished {s : State F} {u v : World F M} (hmore : (u.get h).hasMore = true)
      (hcall : enter s.callee h u = (none, v)) : Ending enter settings h (some s) u (none, v)
  /-- There is no fuel left for a call. -/
  | exhausted {s : State F} {u : World F M} (hmore : (u.get h).hasMore = true) :
      Ending enter settings h (some s) u (none, u)

variable {enter : F → Handle → Execution F M (Value F)}

/-! ### What comes of a link -/

/-- A call for which the fuel does not last ends the chain. -/
theorem link_of_none {s : State F} {w left : World F M}
    (hcall : enter s.callee h w = (none, left)) :
    link enter settings h s w = (none, left) := by
  rw [link_eq, Execution.bind_of_none hcall]

/-- A call that fails ends the chain with its fault. -/
theorem link_of_error {s : State F} {w left : World F M} {e : Fault}
    (hcall : enter s.callee h w = (some (.error e), left)) :
    link enter settings h s w = (some (.error e), left) := by
  rw [link_eq, Execution.bind_of_error hcall]

/-- A call that hands back something that is no state ends the chain with that fault. -/
theorem link_of_asState_eq_error {s : State F} {w left : World F M} {result : Value F} {e : Fault}
    (hcall : enter s.callee h w = (some (.ok result), left))
    (hresult : result.asState s.name = .error e) :
    link enter settings h s w = (some (.error e), left) := by
  rw [link_eq, Execution.bind_of_ok hcall, receive, hresult]

/-- With a valid value the chain goes on, and the transition is reported. -/
theorem link_of_asState_eq_ok {s : State F} {w left : World F M} {result : Value F}
    {target : Option (State F)} (hcall : enter s.callee h w = (some (.ok result), left))
    (hresult : result.asState s.name = .ok target) :
    link enter settings h s w = (some (.ok target), arrive settings h s target left) := by
  rw [link_eq, Execution.bind_of_ok hcall, receive, hresult]

/-! ### Runs have trails -/

/-- **A chain goes through some links and then ends**, whatever its outcome. -/
theorem follow_path (enter : F → Handle → Execution F M (Value F)) (settings : Settings F)
    (h : Handle) (fuel : Nat) (s : Option (State F)) (w : World F M) :
    ∃ links last u, Trail enter settings h s w links last u ∧
      Ending enter settings h last u (follow enter settings h fuel s w) := by
  induction fuel generalizing s w with
  | zero =>
      refine ⟨[], s, w, .nil s w, ?_⟩
      cases s with
      | none => exact .stopped (.inl rfl)
      | some s =>
          cases hmore : (w.get h).hasMore with
          | false =>
              rw [follow_of_not_hasMore enter settings 0 s hmore]
              exact .stopped (.inr hmore)
          | true => simpa [follow, proceed, hmore] using Ending.exhausted hmore
  | succ fuel ih =>
      cases s with
      | none => exact ⟨[], none, w, .nil none w, .stopped (.inl rfl)⟩
      | some s =>
          cases hmore : (w.get h).hasMore with
          | false =>
              rw [follow_of_not_hasMore enter settings _ s hmore]
              exact ⟨[], some s, w, .nil _ w, .stopped (.inr hmore)⟩
          | true =>
              rw [follow_of_hasMore enter settings fuel s hmore]
              -- Without a valid value the chain ends here, and with one there is a link.
              rcases hcall : enter s.callee h w with ⟨_ | e | result, left⟩
              · rw [Execution.bind_of_none (link_of_none hcall)]
                exact ⟨[], some s, w, .nil _ w, .unfinished hmore hcall⟩
              · rw [Execution.bind_of_error (link_of_error hcall)]
                exact ⟨[], some s, w, .nil _ w, .failed hmore hcall⟩
              · cases hresult : result.asState s.name with
                | error e =>
                    rw [Execution.bind_of_error (link_of_asState_eq_error hcall hresult)]
                    exact ⟨[], some s, w, .nil _ w, .refused hmore hcall hresult⟩
                | ok target =>
                    rw [Execution.bind_of_ok (link_of_asState_eq_ok hcall hresult)]
                    obtain ⟨links, last, u, htrail, hending⟩ :=
                      ih target (arrive settings h s target left)
                    exact ⟨⟨s, w, result, target, left⟩ :: links, last, u,
                      .cons (l := ⟨s, w, result, target, left⟩) hmore hcall hresult htrail, hending⟩

/-- A chain that ends with a result has gone through some links to a place where it
stops. -/
theorem follow_ok {fuel : Nat} {s : Option (State F)} {w w' : World F M} {ts : List (Token F)}
    (hrun : follow enter settings h fuel s w = (some (.ok ts), w')) :
    ∃ links last u, Trail enter settings h s w links last u ∧
      (last = none ∨ (u.get h).hasMore = false) ∧
      stop settings h u = (some (.ok ts), w') := by
  obtain ⟨links, last, u, htrail, hending⟩ := follow_path enter settings h fuel s w
  rw [hrun] at hending
  refine ⟨links, last, u, htrail, ?_⟩
  generalize houtcome : (some (Except.ok ts), w') = outcome at hending
  cases hending with
  | stopped hstops => exact ⟨hstops, rfl⟩
  | _ => cases houtcome

/-- **A run that ends with a result has a trail** from the state that its initial
value stands for to the place where it stops. -/
theorem run_ok {fuel : Nat} {initial : Value F} {w w' : World F M} {ts : List (Token F)}
    (hrun : run enter fuel h initial w = (some (.ok ts), w')) :
    ∃ s links last u, initial.asState initialName = .ok s ∧
      Trail enter w.settings h s w links last u ∧
      (last = none ∨ (u.get h).hasMore = false) ∧
      stop w.settings h u = (some (.ok ts), w') := by
  unfold run at hrun
  cases hs : initial.asState initialName with
  | error e => simp [hs] at hrun
  | ok s =>
      simp only [hs] at hrun
      obtain ⟨links, last, u, hfollow⟩ := follow_ok hrun
      exact ⟨s, links, last, u, rfl, hfollow⟩

/-! ### What happens on a trail -/

/-- The report of a transition changes no tokenizer. -/
theorem get_arrived (settings : Settings F) (h k : Handle) (l : Link F M) :
    (l.arrived settings h).get k = l.left.get k := by
  unfold Link.arrived arrive
  split <;> rfl

/-- At the end of a link there is the report of it, if any. -/
theorem history_arrived (settings : Settings F) (h : Handle) (l : Link F M) :
    (l.arrived settings h).history
      = l.left.history ++ (l.reports settings h).map (.reported h) := by
  unfold Link.arrived arrive Link.reports
  split
  · exact l.left.history_report h _
  · exact (List.append_nil _).symm

/-- On a trail there happens what happens at its links. -/
theorem Trail.since_eq (henter : ∀ f h, (enter f h).Steps) {s last : Option (State F)}
    {w u : World F M} {links : List (Link F M)}
    (htrail : Trail enter settings h s w links last u) :
    w.Reaches u ∧ u.since w = links.flatMap (Link.events settings h) := by
  induction htrail with
  | nil s w => exact ⟨.refl, w.since_self⟩
  | @cons l links last u hmore hcall hresult hrest ih =>
      obtain ⟨hreaches, hsince⟩ := ih
      -- First what the call did, then the transition, then the other links.
      have hleft : l.called.Reaches l.left := (henter l.source.callee h).reaches hcall
      have harrived : l.left.Reaches (l.arrived settings h) := reaches_arrive ..
      refine ⟨(hleft.trans harrived).trans hreaches, ?_⟩
      rw [World.Reaches.since_append (hleft.trans harrived) hreaches,
        hleft.since_append harrived, hsince,
        World.since_of_history_eq (history_arrived settings h l), List.flatMap_cons]
      rfl

/-- Every link of a trail is one: its state was called with a character left, and
handed back a valid value. -/
theorem Trail.of_mem {s last : Option (State F)} {w u : World F M} {links : List (Link F M)}
    (htrail : Trail enter settings h s w links last u) {l : Link F M} (hl : l ∈ links) :
    (l.called.get h).hasMore = true ∧
      enter l.source.callee h l.called = (some (.ok l.result), l.left) ∧
      l.result.asState l.source.name = .ok l.target := by
  induction htrail with
  | nil => simp at hl
  | cons hmore hcall hresult _ ih =>
      rcases List.mem_cons.mp hl with rfl | hl
      · exact ⟨hmore, hcall, hresult⟩
      · exact ih hl

/-- Where a trail ends is where it began, or where its last link led to. -/
theorem Trail.eq_or_getLast {s last : Option (State F)} {w u : World F M}
    {links : List (Link F M)} (htrail : Trail enter settings h s w links last u) :
    (links = [] ∧ s = last ∧ w = u) ∨
      ∃ l, links.getLast? = some l ∧ l.target = last ∧ l.arrived settings h = u ∧
        l.result.asState l.source.name = .ok l.target := by
  induction htrail with
  | nil s w => exact .inl ⟨rfl, rfl, rfl⟩
  | @cons l links last u hmore hcall hresult hrest ih =>
      rcases ih with ⟨rfl, htarget, harrived⟩ | ⟨l', hlast, hl'⟩
      · exact .inr ⟨l, rfl, htarget, harrived, hresult⟩
      · refine .inr ⟨l', ?_, hl'⟩
        rw [List.getLast?_cons, hlast]
        rfl

end LexChain.Chain
