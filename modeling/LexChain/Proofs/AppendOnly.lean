import LexChain.Proofs.Growth
import LexChain.Proofs.Partition

/-!
# `LexChain.Proofs.AppendOnly`: between two moments tokens are only added

A list of tokens that was looked at once stays right: `emission_append_only` compares any two
moments in the life of a tokenizer, from its creation to the end of whatever is done with it.
The tokens of the earlier moment come first among those of the later one, and the source is
the same. If the start and the cursor were never assigned, neither of them has gone back, and
the tokens that came in between cover just the text from the one start to the other.
-/

set_option autoImplicit false

namespace LexChain

variable {F M α : Type}

/-- What holds along a list holds between any two of its places. -/
theorem rel_of_pairwise {R : α → α → Prop} (hrefl : ∀ a, R a a) {l : List α} (hl : l.Pairwise R)
    {i j : Nat} (hij : i ≤ j) {a b : α} (ha : l[i]? = some a) (hb : l[j]? = some b) : R a b := by
  obtain ⟨hi, rfl⟩ := List.getElem?_eq_some_iff.mp ha
  obtain ⟨hj, rfl⟩ := List.getElem?_eq_some_iff.mp hb
  rcases Nat.lt_or_eq_of_le hij with hlt | rfl
  · exact List.pairwise_iff_getElem.mp hl i j hi hj hlt
  · exact hrefl _

/-- The tokens that a partitioned tokenizer has more than at an earlier stage cover the text
from the one start to the other. -/
theorem Tokenizer.Partitioned.covered_drop {t u : Tokenizer F} (ht : t.Partitioned)
    (hu : u.Partitioned) (htu : t.Precedes u) :
    t.start ≤ u.start ∧
      Token.covered (u.tokens.drop t.tokens.length) = t.source.slice t.start u.start := by
  obtain ⟨added, hadded⟩ := htu.tokens_grow
  have hsource : t.source = u.source := htu.source_eq.symm
  have ht₀ := ht.start_nonneg
  have hu₀ := hu.start_nonneg
  have hu₁ := Int.le_trans hu.start_le_position hu.position_le_size
  have ht₁ := Int.le_trans ht.start_le_position ht.position_le_size
  -- Both starts are lengths of text that tokens cover.
  have hboth : u.source.take t.start.toNat ++ Token.covered added
      = u.source.take u.start.toNat := by
    rw [← hu.covered_tokens, ← hadded, Tape.covered_append, ht.covered_tokens, hsource]
  have hlength := congrArg List.length hboth
  unfold size at ht₁ hu₁
  rw [hsource] at ht₁ ⊢
  simp only [List.length_append, List.length_take] at hlength
  refine ⟨by omega, ?_⟩
  rw [← hadded, List.drop_left, Text.slice_of_le ht₀ (by omega) hu₁, ← hboth]
  refine (List.drop_left' ?_).symm
  rw [List.length_take]
  omega

/-- Whichever tokenizer an event concerns, it was partitioned just before. -/
theorem Event.Upholds.partitioned {e : Event F} (he : e.Upholds) {h : Handle} {t : Tokenizer F}
    (hstanding : e.standing? h = some t) : t.Partitioned := by
  rcases Event.standing?_eq_some_iff.mp hstanding with rfl | ⟨_, rfl⟩ | ⟨_, rfl⟩ | ⟨_, rfl⟩
  · exact he
  · exact he
  · exact he.1
  · exact he.1

/-- At every moment a tokenizer is partitioned that was so at the beginning. -/
theorem World.Reaches.partitioned_of_mem_moments {w v : World F M} (hr : w.Reaches v) {h : Handle}
    (hw : (w.get h).Partitioned) (hassign : ∀ e ∈ v.since w, ¬e.Assigns h) :
    ∀ t ∈ v.moments w h, t.Partitioned := by
  obtain ⟨hlast, hevents⟩ := hr.partitioned hw hassign
  intro t ht
  rcases List.mem_append.mp ht with ht | ht
  · obtain ⟨e, he, hstanding⟩ := List.mem_filterMap.mp ht
    exact Event.Upholds.partitioned
      (hevents e he (Event.handle_of_standing?_eq_some hstanding)) hstanding
  · rw [List.mem_singleton.mp ht]
    exact hlast

/-- A new tokenizer is partitioned, and so it is at every moment in its life. -/
theorem World.Reaches.partitioned_of_mem_moments_create {w v : World F M} {source : Text}
    (hr : (w.create source).2.Reaches v)
    (hassign : ∀ e ∈ v.since w, ¬e.Assigns (w.create source).1) :
    ∀ t ∈ v.moments w (w.create source).1, t.Partitioned := by
  have hnew : ((w.create source).2.get (w.create source).1).Partitioned := by
    rw [w.get_create]
    exact Tokenizer.partitioned_new ..
  rw [hr.moments_create]
  intro t ht
  rcases List.mem_cons.mp ht with rfl | ht
  · exact hnew
  · exact hr.partitioned_of_mem_moments hnew
      (fun e he => hassign e (hr.mem_since_of_create he)) t ht

/-- **What is emitted stays, and goes on where it left off.** Take a tokenizer from its creation
on, a program that goes on from there, and two moments in the tokenizer's life, which may be the
same. Whatever comes of the program, the tokens of the earlier moment are the first ones of
the later, and both are over the one source. If neither the start nor the cursor was ever
assigned, they have not gone back, and the tokens in between make up the text in between. -/
theorem emission_append_only [Callable F] (machine : Machine F M) (fuel : Nat)
    (p : Program F M α) (w : World F M) (source : Text) :
    let h := (w.create source).1
    let v := (machine.exec fuel p (w.create source).2).2
    ∀ {i j : Nat} {t u : Tokenizer F}, i ≤ j →
      (v.moments w h)[i]? = some t → (v.moments w h)[j]? = some u →
      t.tokens <+: u.tokens ∧ t.source = source ∧ u.source = source ∧ u.size = t.size ∧
        ((∀ e ∈ v.since w, ¬e.Assigns h) →
          t.start ≤ u.start ∧ t.position ≤ u.position ∧
            Token.covered (u.tokens.drop t.tokens.length) = source.slice t.start u.start) := by
  intro h v i j t u hij ht hu
  have hr : (w.create source).2.Reaches v := machine.exec_reaches fuel p _
  have hh : h < (w.create source).2.shelf.next := w.lt_next_create source
  have hmem := List.mem_of_getElem? ht
  have hmem' := List.mem_of_getElem? hu
  rw [hr.moments_create] at ht hu
  have hprecedes := hr.pairwise_moments Tokenizer.Precedes.refl (fun _ _ _ => .trans) hh
    fun c t _ => c.precedes_apply t
  have htu := rel_of_pairwise Tokenizer.Precedes.refl hprecedes hij ht hu
  -- The tokenizer began as a new one, over the source.
  have hsource : t.source = source := by
    have hnew := rel_of_pairwise Tokenizer.Precedes.refl hprecedes (Nat.zero_le i) rfl ht
    rw [hnew.source_eq, w.get_create]
  refine ⟨htu.tokens_grow, hsource, htu.source_eq.trans hsource,
    congrArg List.length htu.source_eq, ?_⟩
  intro hassign
  have hforward := hr.pairwise_moments Tokenizer.Forward.refl (fun _ _ _ => .trans) hh
    fun c t hc => Command.forward_apply
      (World.isPublic_of_mem_since hassign (hr.mem_since_of_create hc)) t
  have htp := hr.partitioned_of_mem_moments_create hassign t hmem
  have hup := hr.partitioned_of_mem_moments_create hassign u hmem'
  obtain ⟨hstart, hcovered⟩ := htp.covered_drop hup htu
  have hposition := rel_of_pairwise Tokenizer.Forward.refl hforward hij ht hu htp.position_le_size
  exact ⟨hstart, hposition.1, hsource ▸ hcovered⟩

/-- A refused amount, a run that emits two tokens and then ends with a fault, and one more
emission. The moments compared are those before the run and at the end. -/
theorem emission_append_only_two_lines :
    let machine : Machine Ini.StateId Unit := fun s h => match s with
      | .comment => do
        Program.tell h (.tokenize (.category .comment))
        Program.fail (.raised .value "no comment")
      | s => Ini.body id s h
    let p : Program Ini.StateId Unit Unit := do
      Program.tell 0 .advance
      let _ ← Program.attempt (Program.tell 0 (.tokenizeNext (-1) .none))
      let _ ← Program.attempt (Program.run 0 (Ini.handOver id .line))
      Program.tell 0 (.tokenizeNext 9 .text)
    let w : World Ini.StateId Unit := { memory := () }
    let moments := (machine.exec 20 p (w.create "a\n ; b".toList).2).2.moments w 0
    ∃ t u, moments[3]? = some t ∧ moments[11]? = some u ∧ t.tokens <+: u.tokens ∧
      t.start ≤ u.start ∧
      Token.covered (u.tokens.drop t.tokens.length)
        = Text.slice "a\n ; b".toList t.start u.start := by
  intro machine p w moments
  obtain ⟨t, ht⟩ : ∃ t, moments[3]? = some t := Option.isSome_iff_exists.mp (by decide +kernel)
  obtain ⟨u, hu⟩ : ∃ u, moments[11]? = some u := Option.isSome_iff_exists.mp (by decide +kernel)
  have hgrown := emission_append_only machine 20 p w "a\n ; b".toList (by decide) ht hu
  have hlater := hgrown.2.2.2.2 (by decide +kernel)
  exact ⟨t, u, ht, hu, hgrown.1, hlater.1, hlater.2.2⟩

end LexChain
