import LexChain.Ini.States
import LexChain.Proofs.Tape
import Mathlib.Data.List.TakeWhile

/-!
# `LexChain.Proofs.Lookahead`: questions that foresee commands

Three questions look further ahead than the character at the cursor: what comes next, what comes
next that is no whitespace, and whether the text ahead starts with a given one.
`lookahead_predicts_consumption` says that each of them foretells what one finds when the text is
consumed: the first ones what is at the cursor after it has moved, and the last one both what is
cut off and what is read character by character (`Tokenizer.Reads`).

The answers and the commands come from separate definitions, which meet on the tape
(`LexChain.Proofs.Tape`): the questions read the text ahead, and the commands take characters off
the front of it.
-/

set_option autoImplicit false

namespace LexChain

variable {F M : Type}

namespace Tokenizer

/-- One character after the other, with a move of the cursor between them, is that of a text. -/
def Reads : Text → Tokenizer F → Prop
  | [], _ => True
  | c :: s, t => t.current = .ok (some c) ∧ t.advance.Reads s

variable {t : Tokenizer F}

/-- When the cursor moves, the text ahead loses its first character. -/
theorem InOrder.rest_advance (ht : t.InOrder) : t.advance.rest = t.rest.drop 1 :=
  ht.shows.advance.rest_eq

/-- What comes next is what is at the cursor when it has moved. -/
theorem InOrder.next_eq_current (ht : t.InOrder) : t.next = t.advance.current := by
  rw [ht.next, ht.shows.advance.inOrder.current, ht.rest_advance]

/-- The next character that is no whitespace is at the cursor when it has moved and passed over
whitespace. -/
theorem InOrder.nextNonBlank_eq_current (ht : t.InOrder) :
    t.nextNonBlank = t.advance.consumeBlanks.2.current := by
  obtain ⟨_, hshows⟩ := ht.shows.advance.consumeBlanks
  have hrest : t.advance.consumeBlanks.2.rest = (t.rest.drop 1).dropWhile Text.isBlank := by
    rw [hshows.rest_eq, Tape.passWhile_eq]
    rfl
  rw [ht.nextNonBlank, hshows.inOrder.current, hrest, List.find?_not_eq_head?_dropWhile]

/-- One reads a text character by character exactly when the text ahead starts with it. -/
theorem InOrder.reads_iff (ht : t.InOrder) (s : Text) : t.Reads s ↔ s <+: t.rest := by
  induction s generalizing t with
  | nil => simp [Reads]
  | cons c s ih =>
      have htail := ih ht.shows.advance.inOrder
      rw [ht.rest_advance] at htail
      rw [Reads, ht.current, htail]
      cases t.rest with
      | nil => simp
      | cons d r => simp [List.cons_prefix_cons, eq_comm]

/-- After a flush the next characters make a token of their own, if there are any. -/
theorem InOrder.tokens_tokenizeNext (ht : t.InOrder) (n : Nat) (label : Value F) :
    ((t.tokenize .text).tokenizeNext n label).2.tokens
      = (t.tokenize .text).tokens ++ Tape.piece (t.rest.take n) label := by
  have hflushed := ht.shows.tokenize .text
  have hshows := hflushed.tokenizeNext (Int.not_lt.mpr (Int.natCast_nonneg n)) label
  -- The command flushes as well, but nothing is pending then.
  rw [hshows.tokens_eq, hflushed.tokens_eq,
    Tape.flush_of_pending_eq_nil (t := t.tape.flush .text) rfl]
  rfl

/-- A text makes a token exactly when the text ahead starts with it. -/
theorem InOrder.cuts_iff (ht : t.InOrder) {s : Text} (hs : s ≠ []) (label : Value F) :
    (∃ k, ((t.tokenize .text).tokenizeNext s.length label).2.tokens
        = (t.tokenize .text).tokens ++ [k] ∧ k.lexeme = s) ↔ s <+: t.rest := by
  rw [ht.tokens_tokenizeNext, List.prefix_iff_eq_take]
  constructor
  · rintro ⟨k, htokens, rfl⟩
    -- The one token covers what the piece is made of.
    have hcovered := congrArg Token.covered (List.append_cancel_left htokens)
    rw [Tape.covered_piece] at hcovered
    simpa [Token.covered] using hcovered.symm
  · intro htake
    refine ⟨⟨s, label⟩, ?_, rfl⟩
    rw [← htake, Tape.piece, if_neg hs]

/-- The text ahead starts with what is asked for exactly when this comes first in it. -/
theorem InOrder.startsWith_iff (ht : t.InOrder) (s : Text) :
    t.startsWith s = true ↔ s <+: t.rest := by
  rw [ht.startsWith, List.isPrefixOf_iff_prefix]

end Tokenizer

/-- **Questions foretell what is consumed.** As long as start and cursor are in order, no question
fails. What comes next is what is at the cursor after it has moved, and the next character that is
no whitespace is at the cursor after it has moved and passed over whitespace. The text ahead starts
with a given one exactly when as many characters, cut off behind a flush, make a token of it, and
exactly when one reads it character by character. It always starts with the empty one. And no
question changes a tokenizer. -/
theorem lookahead_predicts_consumption {w : World F M} {h : Handle} (hw : (w.get h).InOrder) :
    (∀ q, ∃ a, (w.ask h q).1 = .ok a) ∧
    (w.ask h .next).1 = ((w.tell h .advance).2.ask h .current).1 ∧
    ((w.tell h .advance).2.tell h .consumeBlanks).1 = .ok () ∧
    (w.ask h .nextNonBlank).1
      = (((w.tell h .advance).2.tell h .consumeBlanks).2.ask h .current).1 ∧
    (∀ s : Text, s ≠ [] → ∀ label : Value F,
      let flushed := (w.tell h (.tokenize .text)).2
      let cut := (flushed.tell h (.tokenizeNext s.length label)).2
      ((w.ask h (.startsWith s)).1 = .ok true ↔
        ∃ k, (cut.get h).tokens = (flushed.get h).tokens ++ [k] ∧ k.lexeme = s) ∧
      ((w.ask h (.startsWith s)).1 = .ok true ↔ (w.get h).Reads s)) ∧
    (w.ask h (.startsWith [])).1 = .ok true ∧
    ∀ q k, (w.ask h q).2.get k = w.get k := by
  have hstarts : ∀ s : Text, (w.ask h (.startsWith s)).1 = .ok true ↔ s <+: (w.get h).rest := by
    intro s
    have hanswer : (w.ask h (.startsWith s)).1 = .ok ((w.get h).startsWith s) := rfl
    rw [hanswer, Except.ok.injEq, hw.startsWith_iff]
  have hadvance : (w.tell h .advance).2.get h = (w.get h).advance := w.get_tell h .advance
  have hpassed : ((w.tell h .advance).2.tell h .consumeBlanks).2.get h
      = (w.get h).advance.consumeBlanks.2 := by
    rw [World.get_tell, hadvance]
    rfl
  refine ⟨hw.answer_isOk, ?_, ?_, ?_, ?_, ?_, fun q k => w.get_ask h k q⟩
  · show (w.get h).next = ((w.tell h .advance).2.get h).current
    rw [hadvance, hw.next_eq_current]
  · show (((w.tell h .advance).2.get h).consumeBlanks).1 = .ok ()
    rw [hadvance]
    exact hw.shows.advance.consumeBlanks.1
  · show (w.get h).nextNonBlank
      = (((w.tell h .advance).2.tell h .consumeBlanks).2.get h).current
    rw [hpassed, hw.nextNonBlank_eq_current]
  · -- Flushing moves no cursor, so the prefix is asked for at the place where the token will be
    -- cut.
    intro s hs label flushed cut
    have hflushed : flushed.get h = (w.get h).tokenize .text := w.get_tell h _
    have hcut : cut.get h = (((w.get h).tokenize .text).tokenizeNext s.length label).2 := by
      rw [← hflushed]
      exact flushed.get_tell h _
    rw [hstarts, hw.reads_iff, hflushed, hcut, hw.cuts_iff hs]
    exact ⟨Iff.rfl, Iff.rfl⟩
  · rw [hstarts]
    exact List.nil_prefix

/-- A cursor with one character behind it, and whitespace to the end of the source ahead. -/
theorem lookahead_predicts_consumption_trailing :
    let new : World Ini.StateId Unit := { memory := () }
    let w := ((new.create "a= \n".toList).2.tell 0 .advance).2
    (w.get 0).InOrder ∧ (w.ask 0 .next).1 = .ok (some ' ') ∧
      ((w.tell 0 .advance).2.ask 0 .current).1 = .ok (some ' ') ∧
      (w.ask 0 .nextNonBlank).1 = .ok none ∧
      (((w.tell 0 .advance).2.tell 0 .consumeBlanks).2.ask 0 .current).1 = .ok none ∧
      (w.get 0).Reads "= ".toList ∧ ¬(w.get 0).Reads "= \n\n".toList := by
  intro new w
  have hw : (w.get 0).InOrder := ⟨by decide, by decide, by decide⟩
  obtain ⟨-, hnext, -, hnonBlank, hstarts, -⟩ := lookahead_predicts_consumption hw
  have hreads : ∀ s : Text, s ≠ [] → ((w.get 0).Reads s ↔ (w.get 0).startsWith s = true) := by
    intro s hs
    exact ((hstarts s hs .none).2.symm).trans (by rw [World.ask]; simp [Tokenizer.answer])
  refine ⟨hw, rfl, hnext.symm, rfl, hnonBlank.symm, ?_, ?_⟩
  · exact (hreads _ (by decide)).mpr (by decide)
  · exact fun hr => absurd ((hreads _ (by decide)).mp hr) (by decide)

end LexChain
