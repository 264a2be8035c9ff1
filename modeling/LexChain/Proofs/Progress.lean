import LexChain.Ini.States
import LexChain.Proofs.Calls
import LexChain.Proofs.Growth

/-!
# `LexChain.Proofs.Progress`: progress bounds a run

A run has no limit of its own on the number of its calls. What ends it is the text: a chain is not
called on when no character is left. So a run ends if its calls end and the cursor is moved ahead
often enough. `Machine.Advances` says that at most `k` calls in a row leave it in place.

The proof counts. From a state on a chain makes at most `k + 1` calls for each character left, less
the idle calls that led up to the state (`Chain.Calling.length_le`). And a chain whose calls end and
are bounded in number ends (`Chain.exists_follow_of_length_le`).
-/

set_option autoImplicit false

namespace LexChain

variable {F M : Type}

namespace Tokenizer

/-- The number of characters from the cursor on. -/
def remaining (t : Tokenizer F) : Nat := ((t.size : Int) - t.position).toNat

/-- Characters remain as long as there is more data. -/
theorem remaining_pos_iff {t : Tokenizer F} : 0 < t.remaining ↔ t.hasMore = true := by
  simp [remaining, hasMore]

/-- With a cursor that is not before the text and a character left there is one at the cursor. -/
theorem current_eq_some {t : Tokenizer F} (hposition : 0 ≤ t.position) (hmore : t.hasMore = true) :
    ∃ c, t.current = .ok (some c) := by
  have hlt := lt_size_of_hasMore hmore
  have hshort : t.position.toNat < t.source.length := by
    unfold size at hlt
    omega
  refine ⟨t.source[t.position.toNat], ?_⟩
  unfold current ahead
  rw [if_pos hlt, Text.onward_of_nonneg hposition]
  simp [Except.map, hshort]

end Tokenizer

namespace Chain

/-! ### Idle calls -/

/-- A call that ends and leaves the cursor where it was. -/
def Call.Idle (h : Handle) (c : Call F M) : Prop :=
  c.outcome ≠ none ∧ (c.left.get h).position = (c.called.get h).position

/-- A call during which the start and the cursor are not assigned. -/
def Call.IsPublic (h : Handle) (c : Call F M) : Prop :=
  ∀ e ∈ c.left.since c.called, ¬e.Assigns h

/-- There are never more than `k` idle calls in a row. -/
def IdleAtMost (h : Handle) (k : Nat) (calls : List (Call F M)) : Prop :=
  ∀ idle, idle <:+: calls → (∀ c ∈ idle, c.Idle h) → idle.length ≤ k

/-- There are no more of them in a row behind the first call. -/
theorem IdleAtMost.tail {h : Handle} {k : Nat} {c : Call F M} {calls : List (Call F M)}
    (hidle : IdleAtMost h k (c :: calls)) : IdleAtMost h k calls :=
  fun idle hpart => hidle idle (hpart.trans (List.suffix_cons c calls).isInfix)

variable [Callable F] {enter : F → Handle → Execution F M (Value F)} {settings : Settings F}
  {h : Handle} {s : Option (State F)} {w : World F M} {fuel : Nat}

omit [Callable F] in
/-- The call of a link leaves the same text, with the cursor where it was or further ahead. -/
theorem Link.onward (henter : ∀ f h, (enter f h).Steps) {l : Link F M}
    (hmore : (l.called.get h).hasMore = true)
    (hcall : enter l.source.callee h l.called = (some (.ok l.result), l.left))
    (hpublic : l.call.IsPublic h) :
    (l.left.get h).source = (l.called.get h).source ∧
      (l.called.get h).position ≤ (l.left.get h).position := by
  have hreaches : l.called.Reaches l.left := (henter l.source.callee h).reaches hcall
  have hnext := World.lt_next_of_hasMore hmore
  have hinside : (l.called.get h).position ≤ (l.called.get h).size :=
    Int.le_of_lt (Tokenizer.lt_size_of_hasMore hmore)
  exact ⟨hreaches.source_eq hnext, (hreaches.forward hnext hpublic hinside).1⟩

/-- All states of a chain are called over the same text, with a character left and the cursor where
it was when the chain began or further ahead. -/
theorem Calling.onward {cs : List (Call F M)} (hcalling : Calling enter settings h s w cs)
    (henter : ∀ f h, (enter f h).Steps) (hpublic : ∀ c ∈ cs, c.IsPublic h) :
    ∀ c ∈ cs, (c.called.get h).hasMore = true ∧ (c.called.get h).source = (w.get h).source ∧
      (w.get h).position ≤ (c.called.get h).position := by
  -- Induction on the calls: each finds the cursor where the last one left it, and no public
  -- call moves it back.
  induction hcalling with
  | nil => simp
  | last hmore => simpa [call] using hmore
  | @cons l cs hmore hcall _ ih =>
      obtain ⟨hfirst, hothers⟩ := List.forall_mem_cons.mp hpublic
      obtain ⟨hsource, hposition⟩ := Link.onward henter hmore hcall hfirst
      rw [get_arrived] at ih
      refine List.forall_mem_cons.mpr ⟨⟨hmore, rfl, Int.le_refl _⟩, ?_⟩
      intro c hc
      obtain ⟨hmore', hsource', hposition'⟩ := ih hothers c hc
      exact ⟨hmore', hsource'.trans hsource, Int.le_trans hposition hposition'⟩

/-- **Progress bounds the calls of a chain.** `j` idle calls have led up to the state, and they
count as well. -/
theorem Calling.length_le {cs : List (Call F M)} (hcalling : Calling enter settings h s w cs)
    (henter : ∀ f h, (enter f h).Steps) {k j : Nat} (hpublic : ∀ c ∈ cs, c.IsPublic h)
    (hidle : IdleAtMost h k cs)
    (hstreak : ∀ idle, idle <+: cs → (∀ c ∈ idle, c.Idle h) → j + idle.length ≤ k)
    (hroom : j = 0 ∨ (w.get h).hasMore = true) :
    cs.length + j ≤ (k + 1) * (w.get h).remaining := by
  have hj : j ≤ k := hstreak [] List.nil_prefix (by simp)
  -- While a character is left there is room for one more call than may be idle in a row.
  have hone : ∀ t : Tokenizer F, t.hasMore = true → k + 1 ≤ (k + 1) * t.remaining :=
    fun t hmore => Nat.le_mul_of_pos_right _ (Tokenizer.remaining_pos_iff.mpr hmore)
  induction hcalling generalizing j with
  | nil s w =>
      rcases hroom with rfl | hmore
      · simp
      · have := hone _ hmore
        simp only [List.length_nil]
        omega
  | last hmore =>
      have := hone _ hmore
      simp only [List.length_singleton]
      omega
  | @cons l cs hmore hcall _ ih =>
      obtain ⟨hfirst, hothers⟩ := List.forall_mem_cons.mp hpublic
      obtain ⟨hsource, hposition⟩ := Link.onward henter hmore hcall hfirst
      rw [get_arrived] at ih
      have hsize : (l.left.get h).size = (l.called.get h).size :=
        congrArg List.length hsource
      rw [List.length_cons]
      rcases Int.le_iff_eq_or_lt.mp hposition with hsame | hfurther
      · -- An idle call makes the streak longer by one.
        have hcallIdle : l.call.Idle h := by
          exact ⟨by simp [Link.call], hsame.symm⟩
        have hremaining : (l.left.get h).remaining = (l.called.get h).remaining := by
          unfold Tokenizer.remaining
          rw [hsize, hsame]
        have hstreak' : ∀ idle, idle <+: cs → (∀ c ∈ idle, c.Idle h) →
            j + 1 + idle.length ≤ k := by
          intro idle hfront hall
          have hlonger := hstreak (l.call :: idle) (List.cons_prefix_cons.mpr ⟨rfl, hfront⟩)
            (List.forall_mem_cons.mpr ⟨hcallIdle, hall⟩)
          rw [List.length_cons] at hlonger
          omega
        have hrest := ih hothers hidle.tail hstreak'
          (.inr (Tokenizer.remaining_pos_iff.mp
            (hremaining ▸ Tokenizer.remaining_pos_iff.mpr hmore)))
          (hstreak' [] List.nil_prefix (by simp))
        rw [hremaining] at hrest
        omega
      · -- Any other call takes a character, and with it the room for a streak.
        have hremaining : (l.left.get h).remaining + 1 ≤ (l.called.get h).remaining := by
          have hlt := Tokenizer.remaining_pos_iff.mpr hmore
          unfold Tokenizer.remaining at hlt ⊢
          rw [hsize]
          omega
        have hstreak' : ∀ idle, idle <+: cs → (∀ c ∈ idle, c.Idle h) → 0 + idle.length ≤ k := by
          intro idle hfront hall
          rw [Nat.zero_add]
          exact hidle.tail idle hfront.isInfix hall
        have hrest := ih hothers hidle.tail hstreak' (.inl rfl) (Nat.zero_le k)
        have hmul := Nat.mul_le_mul_left (k + 1) hremaining
        rw [Nat.mul_add, Nat.mul_one] at hmul
        omega

/-! ### Chains that end -/

section Ending

variable {machine : Machine F M} {links : List (Link F M)} {u : World F M} {n n' : Nat}

/-- A trail to a place where the chain stops takes no more fuel to stop there. -/
theorem Trail.ends_of_stops {last : Option (State F)}
    (htrail : Trail (machine.enter n) settings h s w links last u)
    (hstops : last = none ∨ (u.get h).hasMore = false) :
    ∃ fuel, (follow (machine.enter fuel) settings h fuel s w).1 ≠ none := by
  refine ⟨links.length + n, ?_⟩
  have htrail' := htrail.extends (machine.extends_enter (m := links.length + n) (by omega))
  have hstop : (stop settings h u).1 ≠ none := Option.some_ne_none _
  rw [htrail'.follow_eq]
  rcases last with _ | t
  · cases n <;> exact hstop
  · rw [follow_of_not_hasMore _ _ _ _ (hstops.resolve_left (Option.some_ne_none t))]
    exact hstop

/-- With fuel for the call of the state behind a trail, the chain ends with this call or the trail
is longer by a link. -/
theorem Trail.ends_or_longer {t : State F}
    (htrail : Trail (machine.enter n) settings h s w links (some t) u)
    (hmore : (u.get h).hasMore = true) (hcall : (machine.enter n' t.callee h u).1 ≠ none) :
    ∃ fuel, (follow (machine.enter fuel) settings h fuel s w).1 ≠ none ∨
      ∃ l last' u', Trail (machine.enter fuel) settings h s w (links ++ [l]) last' u' := by
  -- Fuel for the trail, for all that its calls do, and for what this call does.
  refine ⟨links.length + (n + n' + 1), ?_⟩
  have htrail' := htrail.extends (machine.extends_enter (m := links.length + (n + n' + 1))
    (by omega))
  have hsame := machine.extends_enter (m := links.length + (n + n' + 1)) (by omega) t.callee h u
    hcall
  rw [htrail'.follow_eq, follow_of_hasMore _ _ _ _ hmore]
  rcases hright : machine.enter n' t.callee h u with ⟨_ | e | result, left⟩
  · rw [hright] at hcall
    exact absurd rfl hcall
  · rw [hright] at hsame
    rw [Execution.bind_of_error (link_of_error hsame)]
    exact .inl (by simp)
  · rw [hright] at hsame
    cases hresult : result.asState t.name with
    | error e =>
        rw [Execution.bind_of_error (link_of_asState_eq_error hsame hresult)]
        exact .inl (by simp)
    | ok target =>
        exact .inr ⟨⟨t, u, result, target, left⟩, _, _, htrail'.append
          (.cons (l := ⟨t, u, result, target, left⟩) hmore hsame hresult (.nil _ _))⟩

/-- Behind a trail the chain stops, or it makes another call. -/
theorem Trail.stops_or_call {last : Option (State F)}
    (htrail : Trail (machine.enter n) settings h s w links last u) :
    (last = none ∨ (u.get h).hasMore = false) ∨ ∃ t fuel, last = some t ∧
      (u.get h).hasMore = true ∧
      links.length < (calls (machine.enter fuel) settings h fuel s w).length ∧
      ∃ c ∈ calls (machine.enter fuel) settings h fuel s w, c.source = t ∧ c.called = u := by
  rcases last with _ | t
  · exact .inl (.inl rfl)
  cases hmore : (u.get h).hasMore with
  | false => exact .inl (.inr rfl)
  | true =>
      refine .inr ⟨t, links.length + (n + 1), rfl, rfl, ?_⟩
      -- The next call is made as soon as there is fuel for one more link, and the links made so
      -- far stay the same with more fuel.
      have htrail' := htrail.extends
        (machine.extends_enter (m := links.length + (n + 1)) (by omega))
      rw [htrail'.calls_eq, calls_of_hasMore _ _ _ _ hmore]
      refine ⟨?_, call _ h t u, List.mem_append_right _ List.mem_cons_self, rfl, rfl⟩
      simp

/-- **A chain ends if each of its calls does and their number is bounded.** -/
theorem exists_follow_of_length_le {most : Nat}
    (hmost : ∀ fuel, (calls (machine.enter fuel) settings h fuel s w).length ≤ most)
    (hends : ∀ fuel, ∀ c ∈ calls (machine.enter fuel) settings h fuel s w,
      ∃ n, (machine.enter n c.source.callee h c.called).1 ≠ none) :
    ∃ fuel, (follow (machine.enter fuel) settings h fuel s w).1 ≠ none := by
  -- By induction on how many more links there can be behind a trail.
  have hbehind : ∀ (m n : Nat) (links : List (Link F M)) (last : Option (State F)) (u : World F M),
      Trail (machine.enter n) settings h s w links last u → most ≤ links.length + m →
      ∃ fuel, (follow (machine.enter fuel) settings h fuel s w).1 ≠ none := by
    intro m
    induction m with
    | zero =>
        intro n links last u htrail hmany
        rcases htrail.stops_or_call with hstops | ⟨t, fuel, rfl, hmore, hlonger, _⟩
        · exact htrail.ends_of_stops hstops
        · have := hmost fuel
          omega
    | succ m ih =>
        intro n links last u htrail hmany
        rcases htrail.stops_or_call with hstops | ⟨t, fuel, rfl, hmore, _, c, hc, rfl, rfl⟩
        · exact htrail.ends_of_stops hstops
        · obtain ⟨n', hcall⟩ := hends fuel c hc
          obtain ⟨fuel', hends' | ⟨l, last', u', hlonger⟩⟩ := htrail.ends_or_longer hmore hcall
          · exact ⟨fuel', hends'⟩
          · refine ih fuel' _ last' u' hlonger ?_
            rw [List.length_append, List.length_singleton]
            omega
  exact hbehind most 0 [] s w (.nil s w) (by simp)

end Ending

end Chain

/-- The calls of a run from a value on end, use public operations only, and move the cursor: at most
`k` of them in a row leave it in place. -/
structure Machine.Advances [Callable F] (machine : Machine F M) (h : Handle) (initial : Value F)
    (w : World F M) (k : Nat) : Prop where
  ends : ∀ fuel, ∀ c ∈ machine.calls fuel h initial w,
    ∃ n, (machine.enter n c.source.callee h c.called).1 ≠ none
  isPublic : ∀ fuel, ∀ c ∈ machine.calls fuel h initial w, c.IsPublic h
  idleAtMost : ∀ fuel, Chain.IdleAtMost h k (machine.calls fuel h initial w)

/-- **Progress bounds a run.** If at most `k` calls in a row leave the cursor in place, the run
ends, and makes at most `k + 1` calls for each character from the cursor on. Whenever it calls a
state there is a character at the cursor. With the fuel that the run needs to end these are the
calls of its trail, and the one that it ended with, if that was no link. -/
theorem progress_bounds_run [Callable F] {machine : Machine F M} {h : Handle} {initial : Value F}
    {w : World F M} {k : Nat}
    (hvalid : 0 ≤ (w.get h).position ∧ (w.get h).position ≤ (w.get h).size)
    (hadvances : machine.Advances h initial w k) :
    (∃ r v, machine.Ends (.run h initial) w r v) ∧
    (∀ fuel,
      (machine.calls fuel h initial w).length
        ≤ (k + 1) * ((w.get h).size - (w.get h).position).toNat ∧
      ∀ c ∈ machine.calls fuel h initial w,
        (c.called.get h).position < (w.get h).size ∧
          ∃ ch, (c.called.get h).current = .ok (some ch)) ∧
    ∀ fuel s r v, initial.asState Chain.initialName = .ok s →
      machine.exec fuel (.run h initial) w = (some r, v) →
      ∃ links last u, Chain.Trail (machine.enter fuel) w.settings h s w links last u ∧
        Chain.Ending (machine.enter fuel) w.settings h last u (some r, v) ∧
        machine.calls fuel h initial w
          = links.map Chain.Link.call ++ Chain.lastCall (machine.enter fuel) h last u := by
  obtain ⟨hends, hpublic, hidle⟩ := hadvances
  have hrun : ∀ fuel, machine.exec fuel (.run h initial) w
      = Chain.run (machine.enter fuel) fuel h initial w := fun _ => rfl
  unfold Machine.calls Chain.callsFrom at *
  unfold Chain.run at hrun
  cases hs : initial.asState Chain.initialName with
  | error e =>
      simp only [hs] at hrun
      exact ⟨⟨.error e, w, 0, hrun 0⟩, by simp, by simp⟩
  | ok s =>
      simp only [hs] at hends hpublic hidle hrun ⊢
      have hcalling := fun fuel => Chain.calling_calls (machine.enter fuel) w.settings h fuel s w
      -- However much fuel there is, the calls are at most so many. So the chain cannot use up
      -- more links than that, and ends.
      have hmost : ∀ fuel, (Chain.calls (machine.enter fuel) w.settings h fuel s w).length
          ≤ (k + 1) * (w.get h).remaining := by
        intro fuel
        refine (hcalling fuel).length_le (j := 0) (machine.steps_enter fuel) (hpublic fuel)
          (hidle fuel) ?_ (.inl rfl)
        intro idle hfront hall
        rw [Nat.zero_add]
        exact hidle fuel idle hfront.isInfix hall
      refine ⟨?_, fun fuel => ⟨hmost fuel, ?_⟩, ?_⟩
      · obtain ⟨fuel, hfollow⟩ := Chain.exists_follow_of_length_le hmost hends
        obtain ⟨r, hr⟩ := Option.ne_none_iff_exists'.mp hfollow
        exact ⟨r, _, Machine.ends_exec ((congrArg Prod.fst (hrun fuel)).trans hr)⟩
      · -- A call is only made where there is more data, and the cursor never came back before it.
        intro c hc
        obtain ⟨hmore, hsource, hposition⟩ :=
          (hcalling fuel).onward (machine.steps_enter fuel) (hpublic fuel) c hc
        have hlt := Tokenizer.lt_size_of_hasMore hmore
        rw [show (c.called.get h).size = (w.get h).size from congrArg List.length hsource] at hlt
        exact ⟨hlt, Tokenizer.current_eq_some (Int.le_trans hvalid.1 hposition) hmore⟩
      · intro fuel t r v ht hexec
        obtain rfl := Except.ok.inj ht
        exact Chain.calls_of_follow ((hrun fuel).symm.trans hexec)

/-- A state that moves the cursor on by a character and never flushes is called once for each
character. -/
theorem progress_bounds_run_pending :
    let machine : Machine Ini.StateId Unit := fun _ h => do
      Program.tell h .advance
      return .callable .line
    let w : World Ini.StateId Unit := (World.create { memory := () } "abc".toList).2
    (∃ r v, machine.Ends (.run 0 (.callable .line)) w r v) ∧
      (∀ fuel, (machine.calls fuel 0 (.callable .line) w).length ≤ 3) ∧
      (machine.calls 9 0 (.callable .line) w).length = 3 := by
  intro machine w
  have hcall : ∀ n f (u : World Ini.StateId Unit), machine.enter (n + 1) f 0 u
      = (some (.ok (.callable .line)), ((u.note (.entered f 0 (u.get 0))).tell 0 .advance).2) :=
    fun _ _ _ => rfl
  -- A call without any fuel does nothing, and every other one advances.
  have hmem : ∀ fuel, ∀ c ∈ machine.calls fuel 0 (.callable .line) w,
      (c.outcome = none ∧ c.left = c.called) ∨ (c.called.get 0).hasMore = true ∧
        c.left = ((c.called.note (.entered c.source.callee 0 (c.called.get 0))).tell 0 .advance).2
      := by
    intro fuel c hc
    obtain ⟨_, _, _, _, hmore, heq⟩ := Chain.exists_trail_of_mem_calls hc
    cases fuel with
    | zero => exact .inl ⟨congrArg Chain.Call.outcome heq, congrArg Chain.Call.left heq⟩
    | succ n => exact .inr ⟨hmore, congrArg Chain.Call.left heq⟩
  have hadvances : machine.Advances 0 (.callable .line) w 0 := by
    refine ⟨fun _ c _ => ⟨1, by simp [hcall]⟩, ?_, ?_⟩
    · intro fuel c hc
      unfold Chain.Call.IsPublic
      rcases hmem fuel c hc with ⟨_, hleft⟩ | ⟨_, hleft⟩
      · simp [hleft]
      · rw [World.since_of_history_eq (w := c.left) (by
          rw [hleft, World.history_tell, World.history_note, List.append_assoc])]
        simp [Event.Assigns, Command.IsPublic]
    · intro fuel idle hpart hall
      rcases idle with _ | ⟨c, rest⟩
      · exact Nat.le_refl 0
      · obtain ⟨houtcome, hposition⟩ := hall c List.mem_cons_self
        rcases hmem fuel c (hpart.subset List.mem_cons_self) with ⟨hnone, _⟩ | ⟨hmore, hleft⟩
        · exact absurd hnone houtcome
        · rw [hleft, World.get_tell] at hposition
          have hget : (c.called.note (.entered c.source.callee 0 (c.called.get 0))).get 0
              = c.called.get 0 := rfl
          simp only [Command.apply, Tokenizer.advance, hget, hmore, if_true] at hposition
          omega
  obtain ⟨hends, hbound, -⟩ := progress_bounds_run (by decide) hadvances
  exact ⟨hends, fun fuel => (hbound fuel).1, by decide +kernel⟩

end LexChain
