import LexChain.Ini.States
import LexChain.Proofs.Likeness
import LexChain.Proofs.Tape

/-!
# `LexChain.Proofs.Shift`: consumed text has no influence

A tokenizer that has emitted all text up to its cursor goes on like a new one over the
rest of the text. `Tokenizer.Shifted` is the relation between the two: the first one has
some text before the source of the second one and some tokens before its tokens, and the
two stand at the same places, counted from there. Both show the same tape, but for the
tokens emitted earlier, so the relation is kept by what commands do to tapes
(`Tokenizer.Shifted.apply`), and questions about the text around the cursor have the same
answers (`Tokenizer.Shifted.answer_eq`).

`Program.Local` singles out the programs that ask no other questions, and
`consumed_text_without_influence` lifts the relation to all of them and to runs of their
chains.
-/

set_option autoImplicit false

namespace LexChain

variable {F M α β : Type}

namespace Tokenizer

/-- `t` stands as `u` does, with the text `x` before the source of `u` and the tokens
`earlier` before those of `u`, which is in order. -/
structure Shifted (x : Text) (earlier : List (Token F)) (t u : Tokenizer F) : Prop where
  inOrder : u.InOrder
  source_eq : t.source = x ++ u.source
  start_eq : t.start = x.length + u.start
  position_eq : t.position = x.length + u.position
  tokens_eq : t.tokens = earlier ++ u.tokens

namespace Shifted

variable {x : Text} {earlier : List (Token F)} {t u : Tokenizer F}

/-- The source is longer by what was consumed. -/
theorem size_eq (htu : t.Shifted x earlier u) : t.size = x.length + u.size := by
  show t.source.length = x.length + u.source.length
  rw [htu.source_eq, List.length_append]

/-- The first tokenizer is in order too, and shows the tape of the second one after the
earlier tokens. -/
theorem shows (htu : t.Shifted x earlier u) : t.Shows (u.tape.after earlier) := by
  have hstart := htu.start_eq
  have hposition := htu.position_eq
  have hsize := htu.size_eq
  obtain ⟨h₀, h₁, h₂⟩ := htu.inOrder
  have ht : t.InOrder := ⟨by omega, by omega, by omega⟩
  have hstart' : t.start.toNat = x.length + u.start.toNat := by omega
  have hposition' : t.position.toNat = x.length + u.position.toNat := by omega
  -- Pending and rest are cut behind the text in front, so nothing of it is in them.
  have hpending : t.pending = u.pending := by
    rw [ht.pending_eq, htu.inOrder.pending_eq, htu.source_eq, hstart', hposition',
      List.take_length_add_append, List.drop_length_add_append]
  have hrest : t.rest = u.rest := by
    rw [rest, rest, htu.source_eq, hposition', List.drop_length_add_append]
  refine ⟨ht, ?_⟩
  show (⟨t.tokens, t.pending, t.rest⟩ : Tape F) = ⟨earlier ++ u.tokens, u.pending, u.rest⟩
  rw [htu.tokens_eq, hpending, hrest]

/-- Tokenizers that show one tape, but for the earlier tokens, stand at the same places. -/
theorem of_shows {tp : Tape F} (ht : t.Shows (tp.after earlier)) (hu : u.Shows tp)
    (hsource : t.source = x ++ u.source) : t.Shifted x earlier u := by
  have hpending : t.pending = u.pending := ht.pending_eq.trans hu.pending_eq.symm
  have hrest : t.rest = u.rest := ht.rest_eq.trans hu.rest_eq.symm
  have hsize : t.size = x.length + u.size := by
    show t.source.length = x.length + u.source.length
    rw [hsource, List.length_append]
  -- The places follow from how much text lies between them and the end.
  have hposition : t.position = x.length + u.position := by
    have h₁ := ht.inOrder.length_rest
    have h₂ := hu.inOrder.length_rest
    rw [hrest] at h₁
    omega
  have hstart : t.start = x.length + u.start := by
    have h₁ := ht.inOrder.length_pending
    have h₂ := hu.inOrder.length_pending
    rw [hpending] at h₁
    omega
  refine ⟨hu.inOrder, hsource, hstart, hposition, ?_⟩
  rw [ht.tokens_eq, hu.tokens_eq]
  rfl

/-- A public command has the same outcome for both, and they stand at the same places
after it. -/
theorem apply (htu : t.Shifted x earlier u) {c : Command F} (hc : c.IsPublic) :
    (c.apply t).1 = (c.apply u).1 ∧ (c.apply t).2.Shifted x earlier (c.apply u).2 := by
  have ht := htu.shows
  refine ⟨?_, ?_⟩
  · -- Whether a command fails depends on the command alone, if the tokenizer is in order.
    have herror : ∀ e, (c.apply t).1 = .error e ↔ (c.apply u).1 = .error e := by
      intro e
      rw [ht.inOrder.apply_eq_error_iff, htu.inOrder.apply_eq_error_iff]
    cases hu : (c.apply u).1 with
    | error e => exact (herror e).mpr hu
    | ok _ =>
        cases ht : (c.apply t).1 with
        | error e =>
            rw [(herror e).mp ht] at hu
            cases hu
        | ok _ => rfl
  · -- What it does is read off the tape, where earlier tokens only stand in front.
    have hafter := ht.apply hc
    rw [Tape.apply_after] at hafter
    refine of_shows hafter (htu.inOrder.shows.apply hc) ?_
    rw [c.source_apply, c.source_apply, htu.source_eq]

/-- Questions about the text around the cursor have the same answers. -/
theorem answer_eq (htu : t.Shifted x earlier u) {q : Query} (hq : q.IsLocal) :
    t.answer q = u.answer q := by
  have ht := htu.shows
  have hrest : t.rest = u.rest := ht.rest_eq
  have hpending : t.pending = u.pending := ht.pending_eq
  -- Each of the local questions is answered from the rest or from what is pending.
  cases q with
  | hasMore =>
      show Except.ok t.hasMore = Except.ok u.hasMore
      rw [ht.inOrder.hasMore, htu.inOrder.hasMore, hrest]
  | current =>
      show t.current = u.current
      rw [ht.inOrder.current, htu.inOrder.current, hrest]
  | next =>
      show t.next = u.next
      rw [ht.inOrder.next, htu.inOrder.next, hrest]
  | nextNonBlank =>
      show t.nextNonBlank = u.nextNonBlank
      rw [ht.inOrder.nextNonBlank, htu.inOrder.nextNonBlank, hrest]
  | startsWith s =>
      show Except.ok (t.startsWith s) = Except.ok (u.startsWith s)
      rw [ht.inOrder.startsWith, htu.inOrder.startsWith, hrest]
  | pending =>
      show Except.ok t.pending = Except.ok u.pending
      rw [hpending]
  | _ => exact hq.elim

end Shifted

end Tokenizer

/-! ### Programs that look around the cursor only -/

/-- A program that asks a tokenizer about the text around the cursor only, and moves it by
public commands only. It may drive chains over the tokenizer, but takes no notice of the
tokens handed back, and it may take lists of them and empty these, but does not read them. It may
do anything to other tokenizers. -/
inductive Program.Local (h : Handle) : {α : Type} → Program F M α → Prop
  | pure {α : Type} (a : α) : Local h (.pure a)
  | bind {α β : Type} {p : Program F M α} {k : α → Program F M β} (hp : Local h p)
      (hk : ∀ a, Local h (k a)) : Local h (.bind p k)
  | fail {α : Type} (e : Fault) : Local h (.fail e : Program F M α)
  | attempt {α : Type} {p : Program F M α} (hp : Local h p) : Local h (.attempt p)
  | iterate {σ α : Type} {step : σ → Program F M (σ ⊕ α)} (hstep : ∀ s, Local h (step s))
      (seed : σ) : Local h (.iterate step seed)
  | create (source : Text) : Local h (.create source)
  | ask {k : Handle} {q : Query} (hq : k = h → q.IsLocal) : Local h (.ask k q)
  | tell {k : Handle} {c : Command F} (hc : k = h → c.IsPublic) : Local h (.tell k c)
  | run {k : Handle} (hk : k ≠ h) (initial : Value F) : Local h (.run k initial)
  /-- A run over the tokenizer itself hands back the tokens emitted earlier as well, so
  nothing may depend on them. -/
  | runBefore {α : Type} (k : Handle) (initial : Value F) {p : Program F M α}
      (hp : Local h p) : Local h (.bind (.run k initial) fun _ => p)
  | call (f : F) (k : Handle) : Local h (.call f k)
  | hold (k : Handle) : Local h (.hold k)
  | clear (i : ListId) : Local h (.clear i)
  | settings : Local h .settings
  | configure (s : Settings F) : Local h (.configure s)
  | within {α : Type} {p : Program F M α} (scope : Scope F) (hp : Local h p) :
      Local h (.within scope p)
  | memory : Local h .memory
  | remember (m : M) : Local h (.remember m)

/-! ### Worlds with a tokenizer shifted -/

/-- Answers to a question that differ by what comes before. Nothing is said of summaries. -/
def Query.Shifted (x : Text) (earlier : List (Token F)) :
    (q : Query) → q.Answer F → q.Answer F → Prop
  | .size, a, b => a = x.length + b
  | .source, a, b => a = x ++ b
  | .start, a, b => a = x.length + b
  | .position, a, b => a = x.length + b
  | .tokens, a, b => a = earlier ++ b
  | .summary, _, _ => True
  | .hasMore, a, b => a = b
  | .current, a, b => a = b
  | .next, a, b => a = b
  | .nextNonBlank, a, b => a = b
  | .startsWith _, a, b => a = b
  | .pending, a, b => a = b

/-- What is alike when the tokenizer of one handle is shifted and all others are the same. Lists
are not read, so nothing is said of them. -/
def Likeness.shifted (h : Handle) (x : Text) (earlier : List (Token F)) : Likeness F :=
  .strict (fun k t u => if k = h then t.Shifted x earlier u else t = u)
    (fun k q a b => if k = h then q.Shifted x earlier a b else a = b) (fun _ _ => True) Eq

/-- The world with another tokenizer at a handle. -/
def World.seat (w : World F M) (h : Handle) (t : Tokenizer F) : World F M :=
  { w with shelf := w.shelf.put h t }

/-- Two worlds that have gone alike since an earlier one, with the tokenizer of `h` shifted
in the first of them: all others are the same, and so are the settings and the memory. The
same callables were entered, the same questions asked and the same commands given, with
the same answers and outcomes, but for what comes before. -/
structure World.Shifted (h : Handle) (x : Text) (earlier : List (Token F))
    (before w v : World F M) : Prop where
  shifted : (w.get h).Shifted x earlier (v.get h)
  get_eq : ∀ k, k ≠ h → w.get k = v.get k
  next_eq : v.shelf.next = w.shelf.next
  settings_eq : v.settings = w.settings
  memory_eq : v.memory = w.memory
  events : List.Forall₂ (Likeness.shifted h x earlier).Events
    (deeds (w.since before)) (deeds (v.since before))

namespace Likeness

variable {h : Handle} {x : Text} {earlier : List (Token F)}

/-- At the handle in question tokenizers are alike that are shifted. -/
theorem tokenizers_shifted_self {t u : Tokenizer F} :
    (shifted h x earlier).tokenizers h t u ↔ t.Shifted x earlier u := by
  show (if h = h then _ else _) ↔ _
  rw [if_pos rfl]

/-- At all other handles tokenizers are alike that are equal. -/
theorem tokenizers_shifted_of_ne {k : Handle} (hk : k ≠ h) {t u : Tokenizer F} :
    (shifted h x earlier).tokenizers k t u ↔ t = u := by
  show (if k = h then _ else _) ↔ _
  rw [if_neg hk]

/-- Answers of the tokenizer in question are alike when they are shifted. -/
theorem answers_shifted_self {q : Query} {a b : q.Answer F} :
    (shifted h x earlier).answers h q a b ↔ q.Shifted x earlier a b := by
  show (if h = h then _ else _) ↔ _
  rw [if_pos rfl]

/-- Answers of all other tokenizers are alike when they are equal. -/
theorem answers_shifted_of_ne {k : Handle} (hk : k ≠ h) {q : Query} {a b : q.Answer F} :
    (shifted h x earlier).answers k q a b ↔ a = b := by
  show (if k = h then _ else _) ↔ _
  rw [if_neg hk]

/-- Questions about the text around the cursor tell nothing of what comes before. -/
theorem answer_eq_of_shifted {q : Query} (hq : q.IsLocal) {a b : q.Answer F}
    (hab : q.Shifted x earlier a b) : a = b := by
  cases q <;> first | exact hab | exact hq.elim

/-- Shifted tokenizers give shifted answers, or fail alike. -/
theorem shifted_answer {t u : Tokenizer F} (htu : t.Shifted x earlier u) (q : Query) :
    Results Eq (q.Shifted x earlier) (t.answer q) (u.answer q) := by
  -- A local question has the same answer on both sides. The others are about the tokens, the
  -- text and the cursors.
  have hlocal : q.IsLocal → (∀ a, q.Shifted x earlier a a) →
      Results Eq (q.Shifted x earlier) (t.answer q) (u.answer q) := by
    intro hq hself
    rw [htu.answer_eq hq]
    exact .refl (fun _ => rfl) hself _
  cases q with
  | size => exact .ok htu.size_eq
  | source => exact .ok htu.source_eq
  | start => exact .ok htu.start_eq
  | position => exact .ok htu.position_eq
  | tokens => exact .ok htu.tokens_eq
  | summary => exact .ok trivial
  | _ => exact hlocal trivial fun _ => rfl

/-- **The shift is a lawful likeness.** By the handle: at the one that is shifted tokenizers agree
in all that a chain asks for, and at others they are equal. -/
theorem shifted_lawful [Callable F] : (shifted h x earlier).Lawful := by
  refine Lawful.strict (fun _ => rfl) trivial (fun _ => trivial) ?_ ?_
  · intro k t u htu
    by_cases hk : k = h
    · rw [if_pos hk] at htu
      rw [htu.shows.hasMore, htu.inOrder.hasMore]
      rfl
    · rw [if_neg hk] at htu
      rw [htu]
  · intro k t u q htu
    by_cases hk : k = h
    · simp only [if_pos hk] at htu ⊢
      exact shifted_answer htu q
    · simp only [if_neg hk] at htu ⊢
      subst htu
      exact .refl (fun _ => rfl) (fun _ => rfl) _

/-- **A program that looks around the cursor only makes nothing of what comes before.** -/
theorem shifted_programs {p : Program F M α} (hp : p.Local h) :
    (shifted h x earlier).Programs Eq p p := by
  -- Induction on how the program is local. The tokenizer shifted is only asked local questions,
  -- so both sides get the same answers and go on alike.
  induction hp with
  | pure a => exact .pure rfl
  | bind _ _ ihp ihk => exact ihp.seq ihk
  | fail e => exact .fail rfl
  | attempt _ ih => exact ih.caught fun _ _ he => he
  | iterate _ seed ih => exact .loop ih seed
  | create source => exact .step (.create source)
  | @ask k q hq =>
      refine .mono (.step (.ask k q)) ?_
      intro a b hab
      by_cases hk : k = h
      · subst hk
        exact answer_eq_of_shifted (hq rfl) (answers_shifted_self.mp hab)
      · exact (answers_shifted_of_ne hk).mp hab
  | @tell k c hc =>
      refine .step (.tell ?_)
      intro t u htu
      by_cases hk : k = h
      · subst hk
        obtain ⟨houtcome, hafter⟩ := (tokenizers_shifted_self.mp htu).apply (hc rfl)
        rw [houtcome]
        exact ⟨.refl (fun _ => rfl) (fun _ => rfl) _, tokenizers_shifted_self.mpr hafter⟩
      · obtain rfl := (tokenizers_shifted_of_ne hk).mp htu
        exact ⟨.refl (fun _ => rfl) (fun _ => rfl) _, (tokenizers_shifted_of_ne hk).mpr rfl⟩
  | @run k hk initial =>
      refine .mono (.step (.run k rfl)) ?_
      intro a b hab
      exact (answers_shifted_of_ne hk).mp hab
  -- The result of the run is not looked at by what follows, so that the answers may differ.
  | runBefore k initial _ ih => exact .bind (.step (.run k rfl)) fun _ _ _ => ih
  | call f k => exact .step (.call f k)
  | hold k => exact .step (.hold k)
  | clear i => exact .step (.clear i)
  | settings => exact .step .settings
  | configure s => exact .step (.configure s)
  | within scope _ ih => exact .within rfl ih
  | memory => exact .step .memory
  | remember m => exact .step (.remember m)

/-- Like worlds that have gone alike since two seats of one world. -/
theorem Worlds.shifted {before w v : World F M} {t u : Tokenizer F}
    (hwv : (shifted h x earlier).Worlds w v)
    (halong : (shifted h x earlier).Alongside (before.seat h t) (before.seat h u) w v) :
    World.Shifted h x earlier before w v where
  shifted := tokenizers_shifted_self.mp (hwv.get h)
  get_eq k hk := (tokenizers_shifted_of_ne hk).mp (hwv.get k)
  next_eq := hwv.next_eq
  settings_eq := hwv.settings_eq
  memory_eq := hwv.memory_eq
  events := by
    obtain ⟨es, es', hes, hes', hevents⟩ := halong
    have hsince : w.since before = es := World.since_of_history_eq hes
    have hsince' : v.since before = es' := World.since_of_history_eq hes'
    rwa [hsince, hsince']

/-- Worlds are alike in which shifted tokenizers take the seat of the handle. -/
theorem worlds_seat (w : World F M) {t u : Tokenizer F} (htu : t.Shifted x earlier u) :
    (shifted h x earlier).Worlds (w.seat h t) (w.seat h u) where
  next_eq := (w.shelf.next_put h u).trans (w.shelf.next_put h t).symm
  get k := by
    by_cases hk : k = h
    · subst hk
      refine tokenizers_shifted_self.mpr ?_
      show ((w.shelf.put k t).get k).Shifted x earlier ((w.shelf.put k u).get k)
      rwa [Shelf.get_put, Shelf.get_put]
    · refine (tokenizers_shifted_of_ne hk).mpr ?_
      exact (w.shelf.get_put_of_ne t hk).trans (w.shelf.get_put_of_ne u hk).symm
  refl_of_le k s hk := by
    have hlt : h < (w.shelf.put h t).next := Shelf.lt_next_put ..
    exact (tokenizers_shifted_of_ne (Nat.ne_of_gt (Nat.lt_of_lt_of_le hlt hk))).mpr rfl
  handed_eq := rfl
  held _ := trivial
  settings_eq := rfl
  memory_eq := rfl

end Likeness

/-- **Consumed text has no influence.** Take a tokenizer over `x ++ y` with start and cursor
behind `x`, and a new one over `y`, on a machine whose programs look around the cursor
only. With any amount of fuel a program of that kind comes to the same outcome with either
tokenizer, and a run of any chain does so too, but for the tokens emitted earlier, which it
hands back first. At every moment the one tokenizer is the other one shifted by `x`, and
the same happens to both. -/
theorem consumed_text_without_influence [Callable F] {machine : Machine F M} {h : Handle}
    (hmachine : ∀ f k, (machine f k).Local h) (w : World F M) {x y : Text} {t : Tokenizer F}
    (hsource : t.source = x ++ y) (hstart : t.start = x.length)
    (hposition : t.position = x.length) (traced : Bool) (fuel : Nat) :
    let u : Tokenizer F := { source := y, traced }
    (∀ {α : Type} (p : Program F M α), p.Local h →
      (machine.exec fuel p (w.seat h t)).1 = (machine.exec fuel p (w.seat h u)).1 ∧
        World.Shifted h x t.tokens w (machine.exec fuel p (w.seat h t)).2
          (machine.exec fuel p (w.seat h u)).2) ∧
    ∀ initial : Value F,
      (machine.exec fuel (.run h initial) (w.seat h t)).1
          = (machine.exec fuel (.run h initial) (w.seat h u)).1.map
              (Except.map fun ts => t.tokens ++ ts) ∧
        World.Shifted h x t.tokens w (machine.exec fuel (.run h initial) (w.seat h t)).2
          (machine.exec fuel (.run h initial) (w.seat h u)).2 := by
  intro u
  have hu : u.InOrder := ⟨Int.le_refl 0, Int.le_refl 0, Int.natCast_nonneg _⟩
  have htu : t.Shifted x t.tokens u :=
    ⟨hu, hsource, by simp [hstart, u], by simp [hposition, u],
      by simp [u, Tokenizer.tokens, Tokenizer.emissions]⟩
  have hworlds := Likeness.worlds_seat (h := h) w htu
  have hprograms : ∀ f k, (Likeness.shifted h x t.tokens).Programs Eq (machine f k) (machine f k) :=
    fun f k => Likeness.shifted_programs (hmachine f k)
  refine ⟨?_, ?_⟩
  · intro α p hp
    obtain ⟨houtcome, hafter, halong⟩ := Likeness.simulates_iff.mp
      ((Likeness.shifted_programs hp).simulates Likeness.shifted_lawful hprograms fuel) hworlds
    exact ⟨Results.outcome_eq (fun _ _ he => he) houtcome, hafter.shifted halong⟩
  · -- The run itself answers with the tokens, which the earlier ones precede on the left.
    intro initial
    have hrun : (Likeness.shifted h x t.tokens).Programs ((Likeness.shifted h x t.tokens).answers
        h .tokens) (.run h initial : Program F M _) (.run h initial) := .step (.run h rfl)
    obtain ⟨houtcome, hafter, halong⟩ := Likeness.simulates_iff.mp
      (hrun.simulates Likeness.shifted_lawful hprograms fuel) hworlds
    refine ⟨?_, hafter.shifted halong⟩
    generalize (machine.exec fuel (.run h initial) (w.seat h t)).1 = o at houtcome
    generalize (machine.exec fuel (.run h initial) (w.seat h u)).1 = o' at houtcome
    cases houtcome with
    | none => rfl
    | some hr =>
        cases hr with
        | error he =>
            obtain rfl := he
            rfl
        | ok hts =>
            obtain rfl := Likeness.answers_shifted_self.mp hts
            rfl

/-- A chain behind consumed text, of states that look at the character at the cursor. -/
theorem consumed_text_without_influence_resumed :
    let machine : Machine Ini.StateId Unit := fun s k => do
      let c ← Program.ask k .current
      Program.tell k (.tokenizeNext (if c = some 'c' then 2 else 1) .text)
      return Ini.handOver id s
    let t : Tokenizer Ini.StateId :=
      { source := "abcde".toList, start := 2, position := 2,
        emitted := [⟨⟨"ab".toList, .text⟩, 0, 2⟩], traced := true }
    let u : Tokenizer Ini.StateId := { source := "cde".toList }
    let w : World Ini.StateId Unit := { memory := () }
    let p : Program Ini.StateId Unit (List (Token Ini.StateId)) := .run 0 (Ini.handOver id .line)
    (machine.exec 9 p (w.seat 0 t)).1
        = (machine.exec 9 p (w.seat 0 u)).1.map (Except.map fun ts => t.tokens ++ ts) ∧
      World.Shifted 0 "ab".toList t.tokens w (machine.exec 9 p (w.seat 0 t)).2
        (machine.exec 9 p (w.seat 0 u)).2 ∧
      ((machine.exec 9 p (w.seat 0 t)).1.bind Except.toOption).map (List.map Token.lexeme)
        = some ["ab".toList, "cd".toList, "e".toList] := by
  intro machine t u w p
  have hmachine : ∀ f k, (machine f k).Local 0 := by
    intro f k
    refine .bind (.ask fun _ => trivial) ?_
    intro c
    exact .bind (.tell fun _ => trivial) fun _ => .pure _
  have hresumed := (consumed_text_without_influence hmachine w (x := "ab".toList)
    (y := "cde".toList) (t := t) rfl rfl rfl false 9).2 (Ini.handOver id .line)
  refine ⟨hresumed.1, hresumed.2, ?_⟩
  decide +kernel

end LexChain
