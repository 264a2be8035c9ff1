import LexChain.Tokenizer

/-!
# `LexChain.Proofs.Tape`: a tokenizer as a tape

While start and cursor are in order (`Tokenizer.InOrder`) a tokenizer is no more
than a `Tape`: the tokens emitted so far, the text that is pending, and the rest
of the source ahead of the cursor. Positions then have no part in what happens.
The module says so for everything that can be asked of a tokenizer and told to
it:

* `InOrder.current`, `InOrder.next`, `InOrder.nextNonBlank`, `InOrder.startsWith`
  and `InOrder.hasMore` read their answers off the rest, and
  `InOrder.answer_isOk` says that no question fails;
* `Shows.apply` carries every public command over to `Tape.apply`, and says that the
  order is kept;
* `InOrder.apply_eq_error_iff` finds the one command that fails.

A command moves text from the rest to the pending text and from there to the
tokens. `Tape.text_apply` says that it loses none of it on the way.
-/

set_option autoImplicit false

namespace LexChain

variable {F : Type}

/-- The tokens emitted so far, the text behind the cursor that no token covers,
and the text ahead of the cursor. -/
structure Tape (F : Type) where
  tokens : List (Token F)
  pending : Text
  rest : Text

/-! ### Tapes -/

namespace Tape

/-- A tape with all of its text ahead. -/
def ofSource (source : Text) : Tape F := ⟨[], [], source⟩

/-- The token that a stretch of text makes under a label. Nothing makes none. -/
def piece (s : Text) (label : Value F) : List (Token F) :=
  if s = [] then [] else [⟨s, label⟩]

/-- All the text on a tape, in order. -/
def text (t : Tape F) : Text := Token.covered t.tokens ++ t.pending ++ t.rest

/-- A number of characters passed over, or as many as there are. -/
def pass (t : Tape F) (n : Nat) : Tape F :=
  { t with pending := t.pending ++ t.rest.take n, rest := t.rest.drop n }

/-- The characters of a class passed over, up to the first other one. -/
def passWhile (t : Tape F) (p : Char → Bool) : Tape F :=
  t.pass (t.rest.takeWhile p).length

/-- The pending text emitted under a label. -/
def flush (t : Tape F) (label : Value F) : Tape F :=
  { t with tokens := t.tokens ++ piece t.pending label, pending := [] }

/-- What a public command makes of a tape. The other commands have no meaning
here and leave it as it is. -/
def apply : Command F → Tape F → Tape F
  | .advance, t => t.pass 1
  | .tokenize label, t => t.flush label
  | .tokenizeNext amount label, t =>
    if amount < 0 then t else ((t.flush .text).pass amount.toNat).flush label
  | .consumeBlanks, t =>
    ((t.flush .text).passWhile Text.isBlank).flush (.category .whitespace)
  | .setPosition _, t | .setStart _, t => t

/-- Tokens that follow others cover what comes behind. -/
@[simp] theorem covered_append (ts us : List (Token F)) :
    Token.covered (ts ++ us) = Token.covered ts ++ Token.covered us := by
  simp [Token.covered]

/-- A piece covers its text, even if it is no token. -/
@[simp] theorem covered_piece (s : Text) (label : Value F) :
    Token.covered (piece s label) = s := by
  unfold piece
  split
  · next h => simp [Token.covered, h]
  · simp [Token.covered]

/-- A piece is never an empty token. -/
theorem lexeme_ne_nil_of_mem_piece {s : Text} {label : Value F} {k : Token F}
    (hk : k ∈ piece s label) : k.lexeme ≠ [] := by
  unfold piece at hk
  split at hk
  · simp at hk
  · next h =>
      rw [List.mem_singleton.mp hk]
      exact h

/-- With nothing pending there is nothing to emit. -/
theorem flush_of_pending_eq_nil {t : Tape F} (h : t.pending = []) (label : Value F) :
    t.flush label = t := by
  cases t with
  | mk tokens pending rest =>
      obtain rfl : pending = [] := h
      simp [flush, piece]

/-- Passing over more than the rest passes over the rest. -/
theorem pass_min_length (t : Tape F) (n : Nat) :
    t.pass (min n t.rest.length) = t.pass n := by
  cases Nat.le_total n t.rest.length with
  | inl h => rw [Nat.min_eq_left h]
  | inr h =>
      unfold pass
      rw [Nat.min_eq_right h, List.take_of_length_le h, List.take_length,
        List.drop_of_length_le h, List.drop_length]

/-- Characters of a class move from the front of the rest to the pending text. -/
theorem passWhile_eq (t : Tape F) (p : Char → Bool) :
    t.passWhile p = ⟨t.tokens, t.pending ++ t.rest.takeWhile p, t.rest.dropWhile p⟩ := by
  -- The run is a prefix of the rest, so its length cuts the rest behind it.
  have htake : t.rest.take (t.rest.takeWhile p).length = t.rest.takeWhile p :=
    (List.prefix_iff_eq_take.mp (List.takeWhile_prefix p)).symm
  have hdrop : t.rest.drop (t.rest.takeWhile p).length = t.rest.dropWhile p := by
    have hsplit := List.take_append_drop (t.rest.takeWhile p).length t.rest
    rw [htake] at hsplit
    exact List.append_cancel_left (hsplit.trans List.takeWhile_append_dropWhile.symm)
  rw [passWhile, pass, htake, hdrop]

/-- With no character of the class at the cursor none is passed over. -/
theorem passWhile_eq_self {t : Tape F} {p : Char → Bool} (h : t.rest.head?.any p = false) :
    t.passWhile p = t := by
  rw [passWhile_eq]
  cases t with
  | mk tokens pending rest =>
      cases rest with
      | nil => simp
      | cons c r =>
          have hc : p c = false := h
          simp [hc]

/-- A character of the class at the cursor is passed over, and then the others
are. -/
theorem passWhile_pass_one {t : Tape F} {p : Char → Bool} (h : t.rest.head?.any p = true) :
    (t.rest.takeWhile p).length = ((t.pass 1).rest.takeWhile p).length + 1 ∧
      (t.pass 1).passWhile p = t.passWhile p := by
  rw [passWhile_eq, passWhile_eq]
  cases t with
  | mk tokens pending rest =>
      cases rest with
      | nil => exact Bool.noConfusion h
      | cons c r =>
          have hc : p c = true := h
          simp [pass, hc]

/-- Passing over characters takes nothing from the text. -/
@[simp] theorem text_pass (t : Tape F) (n : Nat) : (t.pass n).text = t.text := by
  simp [text, pass]

/-- A flush takes nothing from the text. -/
@[simp] theorem text_flush (t : Tape F) (label : Value F) :
    (t.flush label).text = t.text := by
  simp [text, flush]

/-- **No command loses text**: all text that was on the tape is still on it, in
the same order. -/
theorem text_apply (c : Command F) (t : Tape F) : (t.apply c).text = t.text := by
  cases c with
  | tokenizeNext amount label =>
      simp only [apply]
      split
      · rfl
      · simp
  | advance => exact t.text_pass 1
  | tokenize label => exact t.text_flush label
  | consumeBlanks => simp [apply, passWhile]
  | setPosition i => rfl
  | setStart i => rfl

/-- The tape with other tokens before its own. -/
def after (t : Tape F) (earlier : List (Token F)) : Tape F :=
  { t with tokens := earlier ++ t.tokens }

/-- The tokens emitted earlier have no part in what is emitted next. -/
theorem flush_after (t : Tape F) (earlier : List (Token F)) (label : Value F) :
    (t.after earlier).flush label = (t.flush label).after earlier := by
  simp [flush, after]

/-- **Earlier tokens make no difference to what a command does.** -/
theorem apply_after (c : Command F) (t : Tape F) (earlier : List (Token F)) :
    (t.after earlier).apply c = (t.apply c).after earlier := by
  -- Passing characters looks at no token, and flushing puts one behind them all.
  have hpass : ∀ (u : Tape F) (n : Nat), (u.after earlier).pass n = (u.pass n).after earlier :=
    fun _ _ => rfl
  cases c with
  | tokenizeNext amount label =>
      simp only [apply]
      split
      · rfl
      · rw [flush_after, hpass, flush_after]
  | advance => exact hpass t 1
  | tokenize label => exact t.flush_after earlier label
  | consumeBlanks =>
      simp only [apply, passWhile]
      rw [flush_after, hpass, flush_after]
      rfl
  | setPosition i => rfl
  | setStart i => rfl

/-- A flush adds no empty token. -/
theorem lexeme_ne_nil_flush {t : Tape F} (ht : ∀ k ∈ t.tokens, k.lexeme ≠ [])
    (label : Value F) : ∀ k ∈ (t.flush label).tokens, k.lexeme ≠ [] := by
  intro k hk
  rcases List.mem_append.mp hk with hk | hk
  · exact ht k hk
  · exact lexeme_ne_nil_of_mem_piece hk

/-- No command adds an empty token. -/
theorem lexeme_ne_nil_apply {t : Tape F} (ht : ∀ k ∈ t.tokens, k.lexeme ≠ [])
    (c : Command F) : ∀ k ∈ (t.apply c).tokens, k.lexeme ≠ [] := by
  -- Tokens are only added by flushing, once or twice, and nothing pending is not flushed.
  cases c with
  | tokenizeNext amount label =>
      simp only [apply]
      split
      · exact ht
      · exact lexeme_ne_nil_flush (t := (t.flush .text).pass amount.toNat)
          (lexeme_ne_nil_flush ht .text) label
  | advance => exact ht
  | tokenize label => exact lexeme_ne_nil_flush ht label
  | consumeBlanks =>
      exact lexeme_ne_nil_flush (t := (t.flush .text).pass _) (lexeme_ne_nil_flush ht .text) _
  | setPosition i => exact ht
  | setStart i => exact ht

end Tape

/-! ### Tokenizers in order -/

namespace Tokenizer

/-- Start and cursor stand in this order inside the source. -/
structure InOrder (t : Tokenizer F) : Prop where
  start_nonneg : 0 ≤ t.start
  start_le_position : t.start ≤ t.position
  position_le_size : t.position ≤ t.size

/-- The text ahead of the cursor. -/
def rest (t : Tokenizer F) : Text := t.source.drop t.position.toNat

/-- The tape that a tokenizer stands for. -/
def tape (t : Tokenizer F) : Tape F := ⟨t.tokens, t.pending, t.rest⟩

namespace InOrder

variable {t : Tokenizer F}

/-- The pending text is the stretch between start and cursor. -/
theorem pending_eq (ht : t.InOrder) :
    t.pending = (t.source.take t.position.toNat).drop t.start.toNat :=
  Text.slice_of_le ht.start_nonneg ht.start_le_position ht.position_le_size

/-- What lies before the start, and then the pending text, lies before the
cursor. -/
theorem take_append_pending (ht : t.InOrder) :
    t.source.take t.start.toNat ++ t.pending = t.source.take t.position.toNat := by
  have hle := ht.start_le_position
  -- The start lies before the cursor, so cutting at the cursor first changes nothing.
  have hfront : t.source.take t.start.toNat
      = (t.source.take t.position.toNat).take t.start.toNat := by
    rw [List.take_take, Nat.min_eq_left (by omega)]
  rw [ht.pending_eq, hfront, List.take_append_drop]

/-- Before the start, pending, and ahead: this is the source. -/
theorem take_append_pending_append_rest (ht : t.InOrder) :
    t.source.take t.start.toNat ++ t.pending ++ t.rest = t.source := by
  rw [ht.take_append_pending, rest, List.take_append_drop]

/-- As much text is pending as there is between start and cursor. -/
theorem length_pending (ht : t.InOrder) : (t.pending.length : Int) = t.position - t.start := by
  have h₀ := ht.start_nonneg
  have h₁ := ht.start_le_position
  have h₂ := ht.position_le_size
  unfold size at h₂
  rw [ht.pending_eq, List.length_drop, List.length_take]
  omega

/-- As much text is ahead as there is from the cursor to the end. -/
theorem length_rest (ht : t.InOrder) : (t.rest.length : Int) = t.size - t.position := by
  have h₀ := ht.start_nonneg
  have h₁ := ht.start_le_position
  have h₂ := ht.position_le_size
  unfold size at *
  rw [rest, List.length_drop]
  omega

/-- Nothing is pending exactly when the cursor has not left the start. -/
theorem pending_eq_nil_iff (ht : t.InOrder) : t.pending = [] ↔ t.start = t.position := by
  have h := ht.length_pending
  rw [← List.length_eq_zero_iff]
  omega

/-! ### Questions -/

/-- A character is left if there is text ahead. -/
theorem hasMore (ht : t.InOrder) : t.hasMore = !t.rest.isEmpty := by
  have h := ht.length_rest
  unfold Tokenizer.hasMore
  cases hr : t.rest with
  | nil =>
      rw [hr] at h
      simp only [List.length_nil] at h
      simpa using (by omega : (t.size : Int) ≤ t.position)
  | cons c r =>
      rw [hr] at h
      simp only [List.length_cons] at h
      simpa using (by omega : t.position < t.size)

/-- With no character left the cursor stands at the end. -/
theorem position_eq_size (ht : t.InOrder) (hmore : t.hasMore = false) :
    t.position = t.size := by
  have hle := ht.position_le_size
  have hge : ¬t.position < t.size := by simpa [Tokenizer.hasMore] using hmore
  omega

/-- Some characters after the cursor there is what the rest holds there. -/
theorem ahead_add (ht : t.InOrder) (n : Nat) :
    t.ahead (t.position + n) = .ok (t.rest.drop n) := by
  have h₀ := ht.start_nonneg
  have h₁ := ht.start_le_position
  have h₂ := ht.length_rest
  unfold ahead
  split
  · have hsum : (t.position + n).toNat = t.position.toNat + n := by omega
    rw [Text.onward_of_nonneg (by omega), rest, List.drop_drop, hsum]
  · next h =>
      -- At the end of the source and past it both sides are empty.
      have hn : t.rest.length ≤ n := by omega
      rw [List.drop_of_length_le hn]

/-- From the cursor on one reads the text ahead. -/
theorem ahead_position (ht : t.InOrder) : t.ahead t.position = .ok t.rest := by
  simpa using ht.ahead_add 0

/-- The character at the cursor is the first one of the text ahead. -/
theorem current (ht : t.InOrder) : t.current = .ok t.rest.head? := by
  rw [Tokenizer.current, ht.ahead_position]
  rfl

/-- The next character is the second one of the text ahead. -/
theorem next (ht : t.InOrder) : t.next = .ok (t.rest.drop 1).head? := by
  rw [Tokenizer.next, show t.position + 1 = t.position + (1 : Nat) from rfl, ht.ahead_add]
  rfl

/-- The next character that is no whitespace is looked for behind the first one ahead. -/
theorem nextNonBlank (ht : t.InOrder) :
    t.nextNonBlank = .ok ((t.rest.drop 1).find? (!Text.isBlank ·)) := by
  rw [Tokenizer.nextNonBlank, show t.position + 1 = t.position + (1 : Nat) from rfl,
    ht.ahead_add]
  rfl

/-- A prefix is looked for in the text ahead. -/
theorem startsWith (ht : t.InOrder) (s : Text) :
    t.startsWith s = s.isPrefixOf t.rest := by
  have h₀ := ht.start_nonneg
  have h₁ := ht.start_le_position
  have h₂ := ht.position_le_size
  unfold Tokenizer.startsWith
  rw [Text.slice_of_le (by omega) h₂ (Int.le_refl _)]
  unfold size at *
  simp [h₂, rest]

/-- No question fails. -/
theorem answer_isOk (ht : t.InOrder) (q : Query) : ∃ a, t.answer q = .ok a := by
  cases q with
  | current => exact ⟨_, ht.current⟩
  | next => exact ⟨_, ht.next⟩
  | nextNonBlank => exact ⟨_, ht.nextNonBlank⟩
  | _ => exact ⟨_, rfl⟩

end InOrder

/-! ### Commands -/

/-- A refused amount changes nothing. -/
theorem tokenizeNext_of_neg (t : Tokenizer F) {amount : Int} (h : amount < 0)
    (label : Value F) :
    t.tokenizeNext amount label = (.error (.negativeAmount amount), t) := by
  rw [tokenizeNext, if_pos h]

/-- The tokenizer is in order and stands for a tape. -/
structure Shows (t : Tokenizer F) (tp : Tape F) : Prop where
  inOrder : t.InOrder
  tape_eq : t.tape = tp

/-- A tokenizer in order shows its tape. -/
theorem InOrder.shows {t : Tokenizer F} (ht : t.InOrder) : t.Shows t.tape := ⟨ht, rfl⟩

/-- A new tokenizer has its whole source ahead. -/
theorem shows_new (source : Text) (traced : Bool) :
    ({ source, traced } : Tokenizer F).Shows (.ofSource source) := by
  refine ⟨⟨Int.le_refl 0, Int.le_refl 0, Int.natCast_nonneg _⟩, ?_⟩
  simp [tape, tokens, emissions, pending, rest, Text.slice_of_le, Tape.ofSource]

namespace Shows

variable {t : Tokenizer F} {tp : Tape F}

/-- A tokenizer has the tokens of the tape that it shows. -/
theorem tokens_eq (ht : t.Shows tp) : t.tokens = tp.tokens := congrArg Tape.tokens ht.tape_eq

/-- A tokenizer has the pending text of the tape that it shows. -/
theorem pending_eq (ht : t.Shows tp) : t.pending = tp.pending := congrArg Tape.pending ht.tape_eq

/-- A tokenizer has the text ahead of the tape that it shows. -/
theorem rest_eq (ht : t.Shows tp) : t.rest = tp.rest := congrArg Tape.rest ht.tape_eq

/-- A character is left if there is text ahead on the tape. -/
theorem hasMore (ht : t.Shows tp) : t.hasMore = !tp.rest.isEmpty := by
  rw [ht.inOrder.hasMore, ht.rest_eq]

/-- A cursor moved forward inside the source passes over the characters in
between. -/
theorem moveTo (ht : t.Shows tp) {i : Int} (h₁ : t.position ≤ i) (h₂ : i ≤ t.size) :
    { t with position := i }.Shows (tp.pass (i - t.position).toNat) := by
  have h₀ := ht.inOrder.start_nonneg
  have h₃ := ht.inOrder.start_le_position
  have hmoved : { t with position := i }.InOrder := ⟨h₀, Int.le_trans h₃ h₁, h₂⟩
  have hrest : { t with position := i }.rest = t.rest.drop (i - t.position).toNat := by
    rw [rest, rest, List.drop_drop]
    congr 1
    show i.toNat = _
    omega
  have hpending : { t with position := i }.pending
      = t.pending ++ t.rest.take (i - t.position).toNat := by
    -- Put behind what lies before the start, both sides are the source up to `i`.
    have hfront : t.source.take t.start.toNat ++ { t with position := i }.pending
        = t.source.take t.start.toNat ++ (t.pending ++ t.rest.take (i - t.position).toNat) := by
      rw [hmoved.take_append_pending, ← List.append_assoc, ht.inOrder.take_append_pending, rest,
        ← List.take_add]
      congr 1
      show i.toNat = _
      omega
    exact List.append_cancel_left hfront
  refine ⟨hmoved, ?_⟩
  rw [← ht.tape_eq, tape, hpending, hrest]
  rfl

/-- To flush the tokenizer is to flush the tape. -/
theorem tokenize (ht : t.Shows tp) (label : Value F) :
    (t.tokenize label).Shows (tp.flush label) := by
  have hnew : (t.tokenize label).InOrder := by
    refine ⟨?_, ?_, ?_⟩
    · rw [start_tokenize]
      exact Int.le_trans ht.inOrder.start_nonneg ht.inOrder.start_le_position
    · exact Int.le_of_eq ((t.start_tokenize label).trans (t.position_tokenize label).symm)
    · rw [position_tokenize, size, source_tokenize]
      exact ht.inOrder.position_le_size
  have hpending : (t.tokenize label).pending = [] := by
    rw [hnew.pending_eq_nil_iff, start_tokenize, position_tokenize]
  have hrest : (t.tokenize label).rest = t.rest := by
    rw [rest, source_tokenize, position_tokenize, rest]
  -- There is a new token exactly when the piece is not empty.
  have htokens : (t.tokenize label).tokens = t.tokens ++ Tape.piece t.pending label := by
    by_cases h : t.start = t.position
    · rw [Tape.piece, if_pos (ht.inOrder.pending_eq_nil_iff.mpr h), Tokenizer.tokenize,
        if_pos h, List.append_nil]
    · rw [Tape.piece, if_neg (mt ht.inOrder.pending_eq_nil_iff.mp h), tokens_tokenize label h]
  refine ⟨hnew, ?_⟩
  rw [← ht.tape_eq, tape, hpending, hrest, htokens]
  rfl

/-- To move its cursor is to pass over a character, if there is one. -/
theorem advance (ht : t.Shows tp) : t.advance.Shows (tp.pass 1) := by
  have hlength := ht.inOrder.length_rest
  have hmore := ht.inOrder.hasMore
  rw [ht.rest_eq] at hlength hmore
  unfold Tokenizer.advance
  rw [hmore]
  cases hr : tp.rest with
  | nil =>
      -- At the end the cursor stays, and there is nothing to pass over.
      have hsame : tp.pass 1 = tp := by
        cases tp
        simp_all [Tape.pass]
      rw [hsame]
      exact ht
  | cons c r =>
      rw [hr] at hlength
      simp only [List.length_cons] at hlength
      have hone : (t.position + 1 - t.position).toNat = 1 := by omega
      rw [← hone]
      exact ht.moveTo (by omega) (by omega)

/-- An amount that is not negative is taken from the rest, or what there is of
it. -/
theorem tokenizeNext (ht : t.Shows tp) {amount : Int} (h : ¬amount < 0) (label : Value F) :
    (t.tokenizeNext amount label).2.Shows
      (((tp.flush .text).pass amount.toNat).flush label) := by
  have hflushed := ht.tokenize .text
  have hlength := hflushed.inOrder.length_rest
  have hle := hflushed.inOrder.position_le_size
  rw [hflushed.rest_eq] at hlength
  have hmoved := hflushed.moveTo
    (i := min ((t.tokenize .text).position + amount) (t.tokenize .text).size)
    (by omega) (by omega)
  -- The cursor moves by the amount or by the length of the rest.
  have hamount : (min ((t.tokenize .text).position + amount) (t.tokenize .text).size
      - (t.tokenize .text).position).toNat = min amount.toNat (tp.flush .text).rest.length := by
    omega
  rw [hamount, Tape.pass_min_length] at hmoved
  unfold Tokenizer.tokenizeNext
  rw [if_neg h]
  exact hmoved.tokenize label

/-- To pass over whitespace is to pass over it on the tape, between two flushes. -/
theorem consumeBlanks (ht : t.Shows tp) :
    t.consumeBlanks.1 = .ok () ∧
      t.consumeBlanks.2.Shows
        (((tp.flush .text).passWhile Text.isBlank).flush (.category .whitespace)) := by
  have hflushed := ht.tokenize .text
  have hahead := hflushed.inOrder.ahead_position
  have hlength := hflushed.inOrder.length_rest
  rw [hflushed.rest_eq] at hahead hlength
  -- The cursor stays inside the source, as the run is no longer than the rest.
  have hrun : (tp.rest.takeWhile Text.isBlank).length ≤ (tp.flush .text).rest.length :=
    (List.takeWhile_sublist _).length_le
  have hmoved := hflushed.moveTo
    (i := (t.tokenize .text).position + (tp.rest.takeWhile Text.isBlank).length)
    (by omega) (by omega)
  have hamount : ((t.tokenize .text).position + (tp.rest.takeWhile Text.isBlank).length
      - (t.tokenize .text).position).toNat = (tp.rest.takeWhile Text.isBlank).length := by
    omega
  rw [hamount] at hmoved
  unfold Tokenizer.consumeBlanks
  refine ⟨by simp only [hahead], ?_⟩
  simp only [hahead]
  exact hmoved.tokenize _

/-- **Commands act on the tape**: what a public command makes of a tokenizer in
order is in order again and stands for what it makes of the tape. -/
theorem apply (ht : t.Shows tp) {c : Command F} (hc : c.IsPublic) :
    (c.apply t).2.Shows (tp.apply c) := by
  cases c with
  | advance => exact ht.advance
  | tokenize label => exact ht.tokenize label
  | tokenizeNext amount label =>
      simp only [Tape.apply]
      split
      · next h =>
          rw [Command.apply, tokenizeNext_of_neg t h]
          exact ht
      · next h => exact ht.tokenizeNext h label
  | consumeBlanks => exact ht.consumeBlanks.2
  | setPosition i => exact hc.elim
  | setStart i => exact hc.elim

end Shows

/-- Only a negative amount is refused. -/
theorem InOrder.apply_eq_error_iff {t : Tokenizer F} (ht : t.InOrder) {c : Command F}
    {e : Fault} :
    (c.apply t).1 = .error e ↔
      ∃ amount label, c = .tokenizeNext amount label ∧ amount < 0 ∧ e = .negativeAmount amount := by
  cases c with
  | tokenizeNext amount label =>
      by_cases h : amount < 0
      · simp [Command.apply, tokenizeNext, h, eq_comm]
      · simp [Command.apply, tokenizeNext, h]
  | consumeBlanks => simp [Command.apply, ht.shows.consumeBlanks.1]
  | _ => simp [Command.apply]

end Tokenizer

end LexChain
