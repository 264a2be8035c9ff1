import LexChain.Program.Exec
import LexChain.Proofs.Tape

/-!
# `LexChain.Proofs.Carries`: programs that move text on a tape

A program that works on one tokenizer alone, and only on the text around its
cursor, is described by what it makes of the tape: `Execution.Carries` says that
in every world in which the tokenizer shows one tape the execution ends with a
certain result, and with the tokenizer showing another one. Descriptions are put
together with `Carries.bind`, and `carries_whileTrue` describes the loop that
moves the cursor as long as the character there is of some class.
-/

set_option autoImplicit false

namespace LexChain

variable {F M α β : Type}

/-- In whatever world a tokenizer shows the tape `tp`, the execution ends with
`a`, and the tokenizer shows `tp'` then. -/
def Execution.Carries (x : Execution F M α) (h : Handle) (tp : Tape F) (a : α)
    (tp' : Tape F) : Prop :=
  ∀ w : World F M, (w.get h).Shows tp →
    ∃ w', x w = (some (.ok a), w') ∧ (w'.get h).Shows tp'

namespace Execution

variable {h : Handle} {tp tp' tp'' : Tape F} {a : α} {b : β}

/-- A result at once leaves the tape as it is. -/
theorem carries_pure : (pure a : Execution F M α).Carries h tp a tp :=
  fun w hw => ⟨w, rfl, hw⟩

/-- One execution carries a tape on to where the next one takes it up. -/
theorem Carries.bind {x : Execution F M α} {k : α → Execution F M β}
    (hx : x.Carries h tp a tp') (hk : (k a).Carries h tp' b tp'') :
    (x.bind k).Carries h tp b tp'' := by
  intro w hw
  obtain ⟨w', hxw, hw'⟩ := hx w hw
  rw [bind_of_ok hxw]
  exact hk w' hw'

end Execution

/-- At its end a chain reports and leaves the tape as it is. -/
theorem Chain.carries_stop {h : Handle} {tp : Tape F} (settings : Settings F) :
    (stop settings h : Execution F M (List (Token F))).Carries h tp tp.tokens tp := by
  intro w hw
  refine ⟨(stop settings h w).2, ?_, ?_⟩
  · unfold stop
    simp only [hw.tokens_eq]
  · unfold stop
    dsimp only
    split <;> exact hw

/-- With no text left a chain stops at whatever state. -/
theorem Chain.carries_follow_of_eq_nil [Callable F]
    {enter : F → Handle → Execution F M (Value F)} {h : Handle} {tp : Tape F}
    (hrest : tp.rest = []) (settings : Settings F) (fuel : Nat) (s : State F) :
    (follow enter settings h fuel (some s)).Carries h tp tp.tokens tp := by
  intro w hw
  rw [follow_of_not_hasMore enter settings fuel s (by rw [hw.hasMore, hrest]; rfl)]
  exact carries_stop settings w hw

/-- With text left a chain goes on with a link. -/
theorem Chain.carries_follow_of_ne_nil [Callable F]
    {enter : F → Handle → Execution F M (Value F)} {h : Handle} {tp tp' tp'' : Tape F}
    {settings : Settings F} {fuel : Nat} {s : State F} {target : Option (State F)}
    {ts : List (Token F)} (hrest : tp.rest ≠ [])
    (hlink : (link enter settings h s).Carries h tp target tp')
    (hfollow : (follow enter settings h fuel target).Carries h tp' ts tp'') :
    (follow enter settings h (fuel + 1) (some s)).Carries h tp ts tp'' := by
  intro w hw
  have hmore : (w.get h).hasMore = true := by
    rw [hw.hasMore]
    simpa using hrest
  rw [follow_of_hasMore enter settings fuel s hmore]
  exact hlink.bind hfollow w hw

open Execution (Carries carries_pure)
open Tape (passWhile_eq_self passWhile_pass_one)

/-- A link is carried out as the call is, if the value handed back is valid. -/
theorem Chain.carries_link [Callable F] {enter : F → Handle → Execution F M (Value F)} {h : Handle}
    {tp tp' : Tape F} {s : State F} {v : Value F} {target : Option (State F)}
    (hcall : (enter s.callee h).Carries h tp v tp') (hv : v.asState s.name = .ok target)
    (settings : Settings F) : (link enter settings h s).Carries h tp target tp' := by
  rw [link_eq]
  refine Carries.bind hcall fun w hw => ⟨arrive settings h s target w, ?_, ?_⟩
  · simp only [receive, hv]
  · unfold arrive
    split <;> exact hw

/-- What a callable's program makes of the tape is what a call of it does, for which one more
unit of fuel is needed. -/
theorem Machine.carries_enter [Callable F] {machine : Machine F M} {f : F} {h : Handle}
    {fuel : Nat} {tp tp' : Tape F} {v : Value F}
    (hbody : (machine.exec fuel (machine f h)).Carries h tp v tp') :
    (machine.enter (fuel + 1) f h).Carries h tp v tp' :=
  fun w hw => hbody (w.note (.entered f h (w.get h))) hw

namespace Program

variable [Callable F] {enter : F → Handle → Execution F M (Value F)} {fuel : Nat}
  {h : Handle} {tp tp' tp'' : Tape F} {a : α} {b : β}

/-- One part of a program, and then the rest. -/
theorem carries_bind {p : Program F M α} {k : α → Program F M β}
    (hp : (p.exec enter fuel).Carries h tp a tp')
    (hk : ((k a).exec enter fuel).Carries h tp' b tp'') :
    ((p >>= k).exec enter fuel).Carries h tp b tp'' :=
  Carries.bind hp hk

/-- One of two programs, with the tape that it leaves. -/
theorem carries_ite {c : Prop} [Decidable c] {p q : Program F M α}
    (hp : c → (p.exec enter fuel).Carries h tp a tp')
    (hq : ¬c → (q.exec enter fuel).Carries h tp a tp'') :
    ((if c then p else q).exec enter fuel).Carries h tp a (if c then tp' else tp'') := by
  split
  · next hc => exact hp hc
  · next hc => exact hq hc

/-- A question is answered and changes nothing. -/
theorem carries_ask {q : Query} {a : q.Answer F}
    (hq : ∀ t : Tokenizer F, t.Shows tp → t.answer q = .ok a) :
    ((ask h q : Program F M _).exec enter fuel).Carries h tp a tp := by
  intro w hw
  exact ⟨(w.ask h q).2, by simp [exec, World.ask, hq _ hw], hw⟩

/-- Whether a character is left is whether there is text ahead. -/
theorem carries_ask_hasMore :
    ((ask h .hasMore : Program F M _).exec enter fuel).Carries h tp (!tp.rest.isEmpty) tp :=
  carries_ask fun _ ht => congrArg Except.ok ht.hasMore

/-- The character at the cursor is the first one of the text ahead. -/
theorem carries_ask_current :
    ((ask h .current : Program F M _).exec enter fuel).Carries h tp tp.rest.head? tp :=
  carries_ask fun t ht => by
    rw [← ht.rest_eq]
    exact ht.inOrder.current

/-- A command that is public and has no negative amount is carried out on the
tape. -/
theorem carries_tell {c : Command F} (hc : c.IsPublic)
    (hamount : ∀ amount label, c = .tokenizeNext amount label → ¬amount < 0) :
    ((tell h c : Program F M _).exec enter fuel).Carries h tp () (tp.apply c) := by
  intro w hw
  have hok : (c.apply (w.get h)).1 = .ok () := by
    cases hr : (c.apply (w.get h)).1 with
    | ok _ => rfl
    | error e =>
        obtain ⟨amount, label, hcommand, hneg, _⟩ := hw.inOrder.apply_eq_error_iff.mp hr
        exact absurd hneg (hamount amount label hcommand)
  refine ⟨(w.tell h c).2, ?_, ?_⟩
  · simp [exec, World.tell, hok]
  · rw [World.get_tell]
    exact hw.apply hc

/-- A round of the loop that passes over the characters of a class: one of them is
passed over, or the loop is left. -/
theorem carries_round {condition : Program F M Bool} {p : Char → Bool}
    (hcondition : (condition.exec enter fuel).Carries h tp (tp.rest.head?.any p) tp) :
    ((do
      if ← condition then
        tell h .advance
        return .inl ()
      else
        return .inr () : Program F M (Unit ⊕ Unit)).exec enter fuel).Carries h tp
      (if tp.rest.head?.any p then .inl () else .inr ())
      (if tp.rest.head?.any p then tp.pass 1 else tp) := by
  refine carries_bind hcondition ?_
  cases tp.rest.head?.any p with
  | true =>
      refine carries_bind (carries_tell trivial ?_) carries_pure
      intro amount label hadvance
      cases hadvance
  | false => exact carries_pure

/-- The cursor is moved as long as there is a character of a class, whatever the
way in which that is found out. The loop needs a round for each character and one
to end. -/
theorem carries_whileTrue {condition : Program F M Bool} {p : Char → Bool}
    (hcondition : ∀ tp : Tape F,
      (condition.exec enter fuel).Carries h tp (tp.rest.head?.any p) tp)
    (hfuel : (tp.rest.takeWhile p).length < fuel) :
    ((whileTrue condition (tell h .advance)).exec enter fuel).Carries h tp () (tp.passWhile p) := by
  -- The parts of a round keep their fuel, while there are fewer rounds to come.
  have hrounds : ∀ (n : Nat) (tp : Tape F), (tp.rest.takeWhile p).length < n →
      (Execution.iterate (fun _ : Unit => (do
        if ← condition then
          tell h .advance
          return .inl ()
        else
          return .inr () : Program F M (Unit ⊕ Unit)).exec enter fuel) n ()).Carries h tp ()
        (tp.passWhile p) := by
    intro n
    induction n with
    | zero => exact fun tp hn => absurd hn (Nat.not_lt_zero _)
    | succ n ih =>
        intro tp hn
        rw [Execution.iterate_succ]
        refine (carries_round (hcondition tp)).bind ?_
        cases hmore : tp.rest.head?.any p with
        | false =>
            have hstay : tp.passWhile p = tp := passWhile_eq_self hmore
            rw [hstay]
            exact carries_pure
        | true =>
            obtain ⟨hlength, hpass⟩ := passWhile_pass_one hmore
            rw [← hpass]
            exact ih (tp.pass 1) (by omega)
  exact hrounds fuel tp hfuel

end Program

end LexChain
