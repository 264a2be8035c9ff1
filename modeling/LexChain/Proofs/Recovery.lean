import LexChain.Ini.States
import LexChain.Proofs.AppendOnly

/-!
# `LexChain.Proofs.Recovery`: start and cursor in order again

Start and cursor can be put at any two integers, and then the source may no longer be cut into
pieces by the tokens. One emission is enough to put both in order again, unless the cursor is out of
the source: `Tokenizer.inOrder_tokenize_iff` and `Tokenizer.inOrder_tokenizeNext_iff` say when.
Whatever command it is that puts them in order, nothing is pending after it
(`Command.start_eq_position_of_restores`).

From then on a tokenizer goes on as if it were new. `Tokenizer.Continues` relates it to its later
stages: it stays in order, and the tokens that come in addition are not empty and cover the source
from the one start to the other. Every public command has this relation to what it starts from
(`Command.continues_apply`), so any two moments have it (`World.Reaches.pairwise_moments`).
The tokens emitted before have no part in it, be they empty or not.

`emission_restores_order` puts the two halves together for all cursors and all programs.
-/

set_option autoImplicit false

namespace LexChain

variable {F M : Type}

/-! ### Commands that put start and cursor in order -/

namespace Tokenizer

variable {t : Tokenizer F}

/-- With nothing pending, order is a matter of where the cursor stands. -/
theorem inOrder_iff_of_start_eq (h : t.start = t.position) :
    t.InOrder ↔ 0 ≤ t.position ∧ t.position ≤ t.size := by
  constructor
  · intro ht
    exact ⟨h ▸ ht.start_nonneg, ht.position_le_size⟩
  · rintro ⟨hnonneg, hle⟩
    exact ⟨h ▸ hnonneg, Int.le_of_eq h, hle⟩

/-- A flush brings start and cursor in order if the cursor is inside the text or at its end. -/
theorem inOrder_tokenize_iff (t : Tokenizer F) (label : Value F) :
    (t.tokenize label).InOrder ↔ 0 ≤ t.position ∧ t.position ≤ t.size := by
  rw [inOrder_iff_of_start_eq (by simp), position_tokenize, size, source_tokenize, size]

/-- The cursor moves by the amount, or to the end, and the start follows it. -/
theorem cursors_tokenizeNext (t : Tokenizer F) {amount : Int} (h : 0 ≤ amount)
    (label : Value F) :
    (t.tokenizeNext amount label).2.start = min (t.position + amount) t.size ∧
      (t.tokenizeNext amount label).2.position = min (t.position + amount) t.size := by
  simp [tokenizeNext, Int.not_lt.mpr h, size]

/-- An amount does if it does not end before the text. It may begin there. -/
theorem inOrder_tokenizeNext_iff (t : Tokenizer F) {amount : Int} (h : 0 ≤ amount)
    (label : Value F) :
    (t.tokenizeNext amount label).2.InOrder ↔ 0 ≤ t.position + amount := by
  obtain ⟨hstart, hposition⟩ := t.cursors_tokenizeNext h label
  have hsize : (t.tokenizeNext amount label).2.size = t.size :=
    congrArg List.length ((Command.tokenizeNext amount label).source_apply t)
  rw [inOrder_iff_of_start_eq (hstart.trans hposition.symm), hposition, hsize]
  omega

end Tokenizer

/-- **After a public command that puts start and cursor in order nothing is pending.** A move of the
cursor does so only when it reaches the start, and the other commands emit what is pending. -/
theorem Command.start_eq_position_of_restores {c : Command F} (hc : c.IsPublic) {t : Tokenizer F}
    (ht : ¬t.InOrder) (hu : (c.apply t).2.InOrder) :
    (c.apply t).2.start = (c.apply t).2.position := by
  cases c with
  | advance =>
      simp only [apply, Tokenizer.advance] at hu ⊢
      split at hu
      · next hmore =>
          rw [if_pos hmore]
          have h₀ := hu.start_nonneg
          have h₁ := hu.start_le_position
          have hlt := Tokenizer.lt_size_of_hasMore hmore
          -- With text ahead, all that can be wrong is a start beyond the cursor.
          have hbehind : ¬t.start ≤ t.position := fun hle => ht ⟨h₀, hle, Int.le_of_lt hlt⟩
          dsimp only at h₁ ⊢
          omega
      · exact absurd hu ht
  | tokenize label => simp [apply]
  | tokenizeNext amount label =>
      simp only [apply, Tokenizer.tokenizeNext] at hu ⊢
      split at hu
      · exact absurd hu ht
      · next hamount => simp [hamount]
  | consumeBlanks =>
      simp only [apply, Tokenizer.consumeBlanks]
      split <;> simp
  | setPosition i => exact hc.elim
  | setStart i => exact hc.elim

/-! ### What comes after -/

namespace Tokenizer

/-- The other tokenizer is a later stage of this one, in order, and the tokens that it has more are
not empty and make up the text between the two starts. -/
structure Continues (t u : Tokenizer F) : Prop where
  inOrder : u.InOrder
  source_eq : u.source = t.source
  exists_added : ∃ added, u.tokens = t.tokens ++ added ∧ (∀ k ∈ added, k.lexeme ≠ []) ∧
    Token.covered added ++ u.source.drop u.start.toNat = t.source.drop t.start.toNat

/-- A tokenizer in order continues from itself. -/
theorem InOrder.continues {t : Tokenizer F} (ht : t.InOrder) : t.Continues t where
  inOrder := ht
  source_eq := rfl
  exists_added := ⟨[], by simp, by simp, by simp [Token.covered]⟩

/-- To continue from what continues is to continue. -/
theorem Continues.trans {t u v : Tokenizer F} (htu : t.Continues u) (huv : u.Continues v) :
    t.Continues v := by
  obtain ⟨added, htokens, hsome, hcovered⟩ := htu.exists_added
  obtain ⟨added', htokens', hsome', hcovered'⟩ := huv.exists_added
  refine ⟨huv.inOrder, huv.source_eq.trans htu.source_eq, added ++ added', ?_, ?_, ?_⟩
  · rw [htokens', htokens, List.append_assoc]
  · intro k hk
    exact (List.mem_append.mp hk).elim (hsome k) (hsome' k)
  · rw [Tape.covered_append, List.append_assoc, hcovered', hcovered]

/-- What is pending, and then what is ahead, is what the source has from the start on. -/
theorem InOrder.pending_append_rest {t : Tokenizer F} (ht : t.InOrder) :
    t.pending ++ t.rest = t.source.drop t.start.toNat := by
  have hsource := ht.take_append_pending_append_rest
  rw [List.append_assoc] at hsource
  refine List.append_cancel_left (hsource.trans ?_)
  exact (List.take_append_drop ..).symm

/-- The tokens that came in addition cover the stretch from the one start to the other. -/
theorem Continues.exists_covered {t u : Tokenizer F} (htu : t.Continues u) (ht : t.InOrder) :
    t.start ≤ u.start ∧ ∃ added, u.tokens = t.tokens ++ added ∧ (∀ k ∈ added, k.lexeme ≠ []) ∧
      Token.covered added = t.source.slice t.start u.start := by
  obtain ⟨added, htokens, hsome, hcovered⟩ := htu.exists_added
  have ht₀ := ht.start_nonneg
  have ht₁ := Int.le_trans ht.start_le_position ht.position_le_size
  have hu₀ := htu.inOrder.start_nonneg
  have hu₁ := Int.le_trans htu.inOrder.start_le_position htu.inOrder.position_le_size
  unfold size at ht₁ hu₁
  rw [htu.source_eq] at hu₁ hcovered
  have hlength := congrArg List.length hcovered
  simp only [List.length_append, List.length_drop] at hlength
  have hle : t.start ≤ u.start := by omega
  refine ⟨hle, added, htokens, hsome, ?_⟩
  -- Behind both sides there is the source from the later start on.
  have hsplit := List.take_append_drop (u.start.toNat - t.start.toNat)
    (t.source.drop t.start.toNat)
  have hsum : t.start.toNat + (u.start.toNat - t.start.toNat) = u.start.toNat := by omega
  rw [List.drop_drop, hsum, ← List.drop_take] at hsplit
  rw [Text.slice_of_le ht₀ hle hu₁]
  exact List.append_cancel_right (hcovered.trans hsplit.symm)

end Tokenizer

/-- **A public command goes on from a tokenizer in order**, whatever that has emitted. -/
theorem Command.continues_apply {c : Command F} (hc : c.IsPublic) {t : Tokenizer F}
    (ht : t.InOrder) : t.Continues (c.apply t).2 := by
  have hshows := ht.shows.apply hc
  -- The tape without the tokens, which stay before all that comes.
  let tape : Tape F := ⟨[], t.pending, t.rest⟩
  have htape : t.tape.apply c = (tape.apply c).after t.tokens := by
    rw [← Tape.apply_after]
    simp [Tokenizer.tape, Tape.after, tape]
  rw [htape] at hshows
  refine ⟨hshows.inOrder, c.source_apply t, (tape.apply c).tokens, hshows.tokens_eq, ?_, ?_⟩
  · exact Tape.lexeme_ne_nil_apply (by simp [tape]) c
  · have htext := Tape.text_apply c tape
    have hpending : (c.apply t).2.pending = (tape.apply c).pending := hshows.pending_eq
    have hrest : (c.apply t).2.rest = (tape.apply c).rest := hshows.rest_eq
    rw [← hshows.inOrder.pending_append_rest, ← ht.pending_append_rest, hpending, hrest,
      ← List.append_assoc]
    exact htext

/-! ### One moment after the other -/

namespace World

/-- While start and cursor are not assigned, the first moment at which they are in order again has
nothing pending. -/
theorem Reaches.start_eq_position_of_restored {w v : World F M} (hr : w.Reaches v) {h : Handle}
    (hh : h < w.shelf.next) (hassign : ∀ e ∈ v.since w, ¬e.Assigns h) {i : Nat}
    {t u : Tokenizer F} (ht : (v.moments w h)[i]? = some t)
    (hu : (v.moments w h)[i + 1]? = some u) (hbefore : ¬t.InOrder) (hafter : u.InOrder) :
    u.start = u.position := by
  have hchain := hr.isChain_moments (R := fun t u => ¬t.InOrder → u.InOrder → u.start = u.position)
    (fun _ hbefore hafter => absurd hafter hbefore) hh
    fun _ _ hc => Command.start_eq_position_of_restores (isPublic_of_mem_since hassign hc)
  obtain ⟨_, rfl⟩ := List.getElem?_eq_some_iff.mp ht
  obtain ⟨hlt, rfl⟩ := List.getElem?_eq_some_iff.mp hu
  exact List.isChain_iff_getElem.mp hchain.tail i hlt hbefore hafter

/-- Every moment goes on from each earlier one that was in order. -/
theorem Reaches.continues_of_moments {w v : World F M} (hr : w.Reaches v) {h : Handle}
    (hh : h < w.shelf.next) (hassign : ∀ e ∈ v.since w, ¬e.Assigns h) {i j : Nat} (hij : i ≤ j)
    {t u : Tokenizer F} (ht : (v.moments w h)[i]? = some t) (hu : (v.moments w h)[j]? = some u)
    (horder : t.InOrder) : t.Continues u := by
  have hrefl : ∀ t : Tokenizer F, t.InOrder → t.Continues t := fun _ => Tokenizer.InOrder.continues
  have hpairwise := hr.pairwise_moments (R := fun t u => t.InOrder → t.Continues u) hrefl
    (fun _ _ _ htu hux ht => (htu ht).trans (hux (htu ht).inOrder)) hh
    fun _ _ hc => Command.continues_apply (isPublic_of_mem_since hassign hc)
  exact rel_of_pairwise hrefl (List.pairwise_cons.mp hpairwise).2 hij ht hu horder

end World

/-! ### Start and cursor assigned -/

/-- **One emission puts start and cursor in order again.** Put them anywhere. An amount that is not
negative leaves both at the one place that the cursor gets to, which is in order exactly when it is
not before the source; the emission of what is pending leaves both at the cursor, which is in order
exactly inside the source. Then let any program run that assigns neither. The first moment at which
they are in order has nothing pending. And from any moment at which they are in order on, they stay
so, and the tokens that come in addition to those emitted before are not empty and cover the source
from the one start to the other. -/
theorem emission_restores_order [Callable F] (machine : Machine F M) (w : World F M) (h : Handle)
    (start position : Int) :
    let t := w.get h
    let u := ((w.tell h (.setStart start)).2.tell h (.setPosition position)).2
    (∀ (amount : Int) (label : Value F), 0 ≤ amount →
      let v := (u.tell h (.tokenizeNext amount label)).2
      (v.get h).start = min (position + amount) t.size ∧
        (v.get h).position = min (position + amount) t.size ∧
        ((v.get h).InOrder ↔ 0 ≤ position + amount)) ∧
    (∀ label : Value F,
      let v := (u.tell h (.tokenize label)).2
      (v.get h).start = position ∧ (v.get h).position = position ∧
        ((v.get h).InOrder ↔ 0 ≤ position ∧ position ≤ t.size)) ∧
    ∀ {α : Type} (fuel : Nat) (p : Program F M α),
      let v := (machine.exec fuel p u).2
      (∀ e ∈ v.since u, ¬e.Assigns h) →
        (∀ {i : Nat} {q r : Tokenizer F}, (v.moments u h)[i]? = some q →
          (v.moments u h)[i + 1]? = some r → ¬q.InOrder → r.InOrder → r.start = r.position) ∧
        ∀ {i j : Nat} {r s : Tokenizer F}, i ≤ j → (v.moments u h)[i]? = some r →
          (v.moments u h)[j]? = some s → r.InOrder →
          s.InOrder ∧ r.start ≤ s.start ∧
            ∃ added, s.tokens = r.tokens ++ added ∧ (∀ k ∈ added, k.lexeme ≠ []) ∧
              Token.covered added = t.source.slice r.start s.start := by
  intro t u
  have hu : u.get h = { t with start, position } := by
    rw [World.get_tell, World.get_tell]
    rfl
  have hnext : h < u.shelf.next := by
    rw [World.next_tell]
    exact Nat.lt_of_lt_of_le (Nat.lt_succ_self h) (Nat.le_max_right ..)
  refine ⟨fun amount label hamount => ?_, fun label => ?_, fun fuel p => ?_⟩
  · simp only [World.get_tell, hu]
    obtain ⟨hstart, hposition⟩ :=
      ({ t with start, position } : Tokenizer F).cursors_tokenizeNext hamount label
    exact ⟨hstart, hposition, Tokenizer.inOrder_tokenizeNext_iff _ hamount label⟩
  · simp only [World.get_tell, hu]
    exact ⟨Tokenizer.start_tokenize .., Tokenizer.position_tokenize ..,
      Tokenizer.inOrder_tokenize_iff ..⟩
  · -- No cursor is assigned from here on, so order once restored is kept, and the slice between
    -- two moments is what was added.
    intro v hassign
    have hr : u.Reaches v := machine.exec_reaches fuel p u
    refine ⟨hr.start_eq_position_of_restored hnext hassign, fun {i j r s} hij hir hjs horder => ?_⟩
    have hcontinues := hr.continues_of_moments hnext hassign hij hir hjs horder
    have hsource : r.source = t.source := by
      rw [hr.source_of_mem_moments hnext (List.mem_of_getElem? hir), hu]
    obtain ⟨hle, hadded⟩ := hcontinues.exists_covered horder
    rw [hsource] at hadded
    exact ⟨hcontinues.inOrder, hle, hadded⟩

/-- A start behind the cursor and a cursor before the source. The amount told next emits two empty
tokens and leaves both cursors on the second character, from which the settings-file lexer goes on
to the end. -/
theorem emission_restores_order_backwards :
    let w : World Ini.StateId Unit := (({ memory := () } : World Ini.StateId Unit).create
      "a = b\n".toList).2
    let u := ((w.tell 0 (.setStart 4)).2.tell 0 (.setPosition (-2))).2
    let p : Program Ini.StateId Unit (List (Token Ini.StateId)) := do
      Program.tell 0 (.tokenizeNext 3 .text)
      Program.run 0 (Ini.handOver id .line)
    let v := (Ini.machine.exec 20 p u).2
    ((u.tell 0 (.tokenizeNext 3 .text)).2.get 0).InOrder ∧
      ∃ q r s, (v.moments u 0)[0]? = some q ∧ (v.moments u 0)[1]? = some r ∧
        (v.moments u 0)[24]? = some s ∧ r.tokens.map (·.lexeme) = [[], []] ∧ s.start = 6 ∧
        r.start = r.position ∧ ∃ added, s.tokens = r.tokens ++ added ∧
          Token.covered added = Text.slice "a = b\n".toList r.start s.start := by
  intro w u p v
  obtain ⟨hamount, -, hprogram⟩ := emission_restores_order Ini.machine w 0 4 (-2)
  obtain ⟨hrestored, hlater⟩ := hprogram 20 p (by decide +kernel)
  obtain ⟨q, hq⟩ : ∃ q, (v.moments u 0)[0]? = some q :=
    Option.isSome_iff_exists.mp (by decide +kernel)
  obtain ⟨r, hr⟩ : ∃ r, (v.moments u 0)[1]? = some r :=
    Option.isSome_iff_exists.mp (by decide +kernel)
  obtain ⟨s, hs⟩ : ∃ s, (v.moments u 0)[24]? = some s :=
    Option.isSome_iff_exists.mp (by decide +kernel)
  have hbefore : ¬q.InOrder := by
    intro hq'
    have hstart : (v.moments u 0)[0]?.map (·.start) = some 4 := by decide +kernel
    have hposition : (v.moments u 0)[0]?.map (·.position) = some (-2) := by decide +kernel
    have hle := hq'.start_le_position
    simp [hq] at hstart hposition
    omega
  have hafter : r.InOrder := by
    have hcursors : (v.moments u 0)[1]?.map (fun r => (r.start, r.position, r.size))
        = some (1, 1, 6) := by decide +kernel
    simp [hr] at hcursors
    obtain ⟨hstart, hposition, hsize⟩ := hcursors
    exact ⟨by omega, by omega, by omega⟩
  have htokens : (v.moments u 0)[1]?.map (fun r => r.tokens.map (·.lexeme)) = some [[], []] := by
    decide +kernel
  have hend : (v.moments u 0)[24]?.map (·.start) = some 6 := by decide +kernel
  obtain ⟨-, -, added, hadded, -, hcovered⟩ := hlater (by decide) hr hs hafter
  refine ⟨(hamount 3 .text (by decide)).2.2.mpr (by decide), q, r, s, hq, hr, hs, ?_, ?_,
    hrestored hq hr hbefore hafter, added, hadded, hcovered⟩
  · simpa [hr] using htokens
  · simpa [hs] using hend

end LexChain

