import LexChain.Ini.States
import LexChain.Proofs.AppendOnly
import LexChain.Proofs.Carries
import LexChain.Proofs.Fuel
import Mathlib.Algebra.GroupWithZero.Nat
import Mathlib.Data.List.Basic
import Mathlib.Data.List.Induction

/-!
# `LexChain.Proofs.Cutting`: a text cut by amounts

A new tokenizer that is told one amount after the other, each with a label, cuts its source into
pieces. `Program.cut` tells it so, and `Token.pieces` says which tokens come of it: the place
behind a piece is the sum of the amounts so far, or the end of the source if that comes first
(`cutAt`), and a piece without text is no token. `Tape.cut_ofSource` is the law that connects the
two, by induction on the amounts, the last one first.

Two things follow. A state that takes the same amount again and again cuts the source into pieces of
one width (`Chain.carries_follow_cut`, `Token.pieces_replicate`). And tokens that cover the front of
a source come out again when the source is cut by their own lengths (`Tape.cut_tokens`).
-/

set_option autoImplicit false

namespace LexChain

variable {F M α : Type}

/-! ### Where the cuts go -/

/-- The place behind the first `i` parts of a text of some size. -/
def cutAt (size : Nat) (parts : List (Nat × Value F)) (i : Nat) : Nat :=
  min ((parts.take i).map (·.1)).sum size

/-- The token for the text between two places, or none where there is no text between them. -/
def Token.between (source : Text) (a b : Nat) (label : Value F) : List (Token F) :=
  if a < b then [⟨source.slice a b, label⟩] else []

/-- The tokens for the parts of a text, each from the place behind the parts before it to the place
behind itself. -/
def Token.pieces (source : Text) (parts : List (Nat × Value F)) : List (Token F) :=
  parts.zipIdx.flatMap fun p =>
    between source (cutAt source.length parts p.2) (cutAt source.length parts (p.2 + 1)) p.1.2

/-- No cut lies behind the text. -/
theorem cutAt_le (size : Nat) (parts : List (Nat × Value F)) (i : Nat) :
    cutAt size parts i ≤ size :=
  Nat.min_le_right ..

/-- Parts further on have no part in where the cuts before them go. -/
theorem cutAt_append (size : Nat) (parts more : List (Nat × Value F)) {i : Nat}
    (hi : i ≤ parts.length) : cutAt size (parts ++ more) i = cutAt size parts i := by
  unfold cutAt
  rw [List.take_append_of_le_length hi]

/-- The cut behind one more part is as far on as that part is long, or at the end. -/
theorem cutAt_concat (size : Nat) (parts : List (Nat × Value F)) (part : Nat × Value F) :
    cutAt size (parts ++ [part]) (parts.length + 1)
      = min (cutAt size parts parts.length + part.1) size := by
  have hall : (parts ++ [part]).length = parts.length + 1 := List.length_append
  unfold cutAt
  rw [← hall, List.take_length, List.take_length, List.map_append, List.sum_append]
  simp only [List.map_cons, List.map_nil, List.sum_singleton]
  omega

/-- The text from a place on, up to a number of characters further on, is cut off the rest there. -/
theorem Text.slice_add (source : Text) {a n : Nat} (ha : a ≤ source.length) :
    source.slice a (min (a + n) source.length : Nat) = (source.drop a).take n := by
  rw [Text.slice_of_le (by omega) (by omega) (by omega), List.drop_take]
  simp only [Int.toNat_natCast]
  rcases Nat.le_total (a + n) source.length with hle | hle
  · rw [Nat.min_eq_left hle, Nat.add_sub_cancel_left]
  · -- Past the end both sides are all that is left.
    rw [Nat.min_eq_right hle, List.take_of_length_le (by simp),
      List.take_of_length_le (by simp; omega)]

/-- The token between two cuts is the text of that length, unless there is none. -/
theorem Token.between_add (source : Text) {a n : Nat} (ha : a ≤ source.length) (label : Value F) :
    Token.between source a (min (a + n) source.length) label
      = Tape.piece ((source.drop a).take n) label := by
  have hempty : (source.drop a).take n = [] ↔ ¬a < min (a + n) source.length := by
    rw [List.take_eq_nil_iff, List.drop_eq_nil_iff]
    omega
  unfold between Tape.piece
  rw [Text.slice_add source ha]
  by_cases hlt : a < min (a + n) source.length
  · rw [if_pos hlt, if_neg (fun hnil => hempty.mp hnil hlt)]
  · rw [if_neg hlt, if_pos (hempty.mpr hlt)]

/-- One part more makes one piece more, if there is text left for it. -/
theorem Token.pieces_concat (source : Text) (parts : List (Nat × Value F))
    (part : Nat × Value F) :
    Token.pieces source (parts ++ [part]) = Token.pieces source parts ++
      Tape.piece ((source.drop (cutAt source.length parts parts.length)).take part.1) part.2 := by
  unfold pieces
  rw [List.zipIdx_append, List.flatMap_append]
  congr 1
  · -- The cuts before the last part go where they went without it.
    refine List.flatMap_congr fun p hp => ?_
    have hlt : p.2 < parts.length := by simpa using (List.mem_zipIdx hp).2.1
    rw [cutAt_append _ _ _ (by omega), cutAt_append _ _ _ (by omega)]
  · rw [Nat.zero_add, List.zipIdx_singleton, List.flatMap_singleton, cutAt_concat,
      cutAt_append _ _ _ (Nat.le_refl _), between_add source (cutAt_le ..)]

/-! ### Tapes that are cut -/

namespace Tape

/-- A tape from which one part is cut off after the other. -/
def cut (t : Tape F) (parts : List (Nat × Value F)) : Tape F :=
  parts.foldl (fun t part => t.apply (.tokenizeNext part.1 part.2)) t

/-- Cutting takes nothing from the text of a tape. -/
theorem text_cut (t : Tape F) (parts : List (Nat × Value F)) : (t.cut parts).text = t.text := by
  induction parts generalizing t with
  | nil => rfl
  | cons part parts ih => exact (ih _).trans (text_apply _ t)

/-- With nothing pending an amount is emitted, or what is left of it, and nothing else. -/
theorem apply_tokenizeNext_of_pending_eq_nil {t : Tape F} (hpending : t.pending = []) (n : Nat)
    (label : Value F) :
    t.apply (.tokenizeNext n label)
      = ⟨t.tokens ++ piece (t.rest.take n) label, [], t.rest.drop n⟩ := by
  have hn : ¬(n : Int) < 0 := by omega
  rw [apply, if_neg hn, flush_of_pending_eq_nil hpending, Int.toNat_natCast]
  simp [pass, flush, hpending]

/-- **Amounts cut a text into its pieces**, and the rest goes on behind the last cut. -/
theorem cut_ofSource (source : Text) (parts : List (Nat × Value F)) :
    (ofSource source).cut parts
      = ⟨Token.pieces source parts, [], source.drop (cutAt source.length parts parts.length)⟩ := by
  -- By induction from the last part on, as each cut counts from the beginning of the text.
  induction parts using List.reverseRecOn with
  | nil => simp [cut, ofSource, Token.pieces, cutAt]
  | append_singleton parts part ih =>
      have hcut : (ofSource source).cut (parts ++ [part])
          = ((ofSource source).cut parts).apply (.tokenizeNext part.1 part.2) := by
        simp [cut]
      have hrest : (source.drop (cutAt source.length parts parts.length)).drop part.1
          = source.drop (cutAt source.length (parts ++ [part]) (parts ++ [part]).length) := by
        rw [List.drop_drop, List.length_append, List.length_singleton, cutAt_concat]
        rcases Nat.le_total (cutAt source.length parts parts.length + part.1) source.length with
          hle | hle
        · rw [Nat.min_eq_left hle]
        · rw [Nat.min_eq_right hle, List.drop_of_length_le hle, List.drop_length]
      rw [hcut, ih, apply_tokenizeNext_of_pending_eq_nil rfl, Token.pieces_concat, ← hrest]

/-- **Tokens replay**: their own lengths cut them out of the text that they cover. -/
theorem cut_tokens (ts : List (Token F)) (hts : ∀ k ∈ ts, k.lexeme ≠ []) {t : Tape F} {rest : Text}
    (hpending : t.pending = []) (hrest : t.rest = Token.covered ts ++ rest) :
    t.cut (ts.map fun k => (k.lexeme.length, k.label)) = ⟨t.tokens ++ ts, [], rest⟩ := by
  induction ts generalizing t with
  | nil =>
      cases t with
      | mk tokens pending left =>
          obtain rfl : pending = [] := hpending
          obtain rfl : left = rest := hrest
          simp [cut]
  | cons k ts ih =>
      obtain ⟨hk, hothers⟩ := List.forall_mem_cons.mp hts
      -- The first amount is the length of the first lexeme, so what it cuts off is that lexeme,
      -- and the rest is what the other tokens cover.
      have hsplit : t.rest = k.lexeme ++ (Token.covered ts ++ rest) := by
        rw [hrest]
        simp [Token.covered]
      have hfirst : t.apply (.tokenizeNext k.lexeme.length k.label)
          = ⟨t.tokens ++ [k], [], Token.covered ts ++ rest⟩ := by
        rw [apply_tokenizeNext_of_pending_eq_nil hpending, hsplit, List.take_left, List.drop_left,
          piece, if_neg hk]
      have hlater := ih hothers (t := ⟨t.tokens ++ [k], [], Token.covered ts ++ rest⟩) rfl rfl
      rw [List.append_assoc, List.singleton_append] at hlater
      rw [List.map_cons, cut, List.foldl_cons, hfirst]
      exact hlater

end Tape

/-! ### Pieces of one width -/

/-- How many pieces of a width make up a text of some size, the last of them shorter maybe. -/
def pieceCount (size width : Nat) : Nat := (size + width - 1) / width

/-- The piece that comes after a number of others of the same width. -/
def Token.strip (source : Text) (width : Nat) (label : Value F) (i : Nat) : Token F :=
  ⟨(source.drop (i * width)).take width, label⟩

/-- A strip is counted exactly when it begins inside the text. -/
theorem lt_pieceCount_iff {size width i : Nat} (hwidth : 0 < width) :
    i < pieceCount size width ↔ i * width < size := by
  unfold pieceCount
  rw [← Nat.succ_le_iff, Nat.le_div_iff_mul_le hwidth, Nat.succ_mul]
  omega

/-- A text that is not used up has one piece more than what is left of it behind the first one. -/
theorem pieceCount_of_pos {size width : Nat} (hsize : 0 < size) (hwidth : 0 < width) :
    pieceCount size width = pieceCount (size - width) width + 1 := by
  unfold pieceCount
  rcases Nat.le_total width size with hle | hle
  · have hsum : size + width - 1 = size - width + width - 1 + width := by omega
    rw [hsum, Nat.add_div_right _ hwidth]
  · have hnone : size - width + width - 1 = width - 1 := by omega
    rw [hnone, Nat.div_eq_of_lt (by omega : width - 1 < width)]
    exact Nat.div_eq_of_lt_le (by omega) (by omega)

/-- All pieces but the last have the full width. -/
theorem Token.length_strip {source : Text} {width i : Nat} (hwidth : 0 < width)
    (hi : i + 1 < pieceCount source.length width) (label : Value F) :
    (Token.strip source width label i).lexeme.length = width := by
  have hfull := (lt_pieceCount_iff hwidth).mp hi
  rw [Nat.succ_mul] at hfull
  simp [strip]
  omega

/-- The cuts of one width go to its multiples, up to the end. -/
theorem cutAt_replicate (size : Nat) {count width i : Nat} (hi : i ≤ count) (label : Value F) :
    cutAt size (List.replicate count (width, label)) i = min (i * width) size := by
  simp [cutAt, List.take_replicate, Nat.min_eq_left hi]

/-- **A width taken again and again cuts a text into strips.** -/
theorem Token.pieces_replicate (source : Text) {width : Nat} (hwidth : 0 < width)
    (label : Value F) :
    Token.pieces source (List.replicate (pieceCount source.length width) (width, label))
      = (List.range (pieceCount source.length width)).map (Token.strip source width label) := by
  have hzip : (List.replicate (pieceCount source.length width) (width, label)).zipIdx
      = (List.range (pieceCount source.length width)).map fun i => ((width, label), i) := by
    apply List.ext_getElem <;> simp
  unfold pieces
  rw [hzip, List.flatMap_map, List.map_eq_flatMap]
  refine List.flatMap_congr fun i hi => ?_
  -- The piece lies within the text, so no bound of its two is cut down to the length.
  have hlt := List.mem_range.mp hi
  have hstart := (lt_pieceCount_iff hwidth).mp hlt
  dsimp only
  rw [cutAt_replicate _ (by omega), cutAt_replicate _ (by omega), Nat.min_eq_left (by omega),
    Nat.succ_mul, between_add source (by omega)]
  have hsome : ¬(source.drop (i * width)).take width = [] := by
    rw [List.take_eq_nil_iff, List.drop_eq_nil_iff]
    omega
  unfold Tape.piece
  rw [if_neg hsome]
  rfl

/-- The strips make up the text. -/
theorem Token.covered_strips (source : Text) {width : Nat} (hwidth : 0 < width)
    (label : Value F) :
    Token.covered ((List.range (pieceCount source.length width)).map
      (Token.strip source width label)) = source := by
  have hend : ¬pieceCount source.length width * width < source.length :=
    (lt_pieceCount_iff hwidth).not.mp (Nat.lt_irrefl _)
  have htext := Tape.text_cut (.ofSource source)
    (List.replicate (pieceCount source.length width) (width, label))
  -- The last cut goes to the end of the text, so nothing is left behind it.
  rw [Tape.cut_ofSource, Token.pieces_replicate source hwidth, List.length_replicate,
    cutAt_replicate _ (Nat.le_refl _), Nat.min_eq_right (by omega), List.drop_length] at htext
  simpa [Tape.text, Tape.ofSource, Token.covered] using htext

/-! ### Programs that cut -/

open Execution (Carries carries_pure)

/-- One part after the other cut off, with nothing in between. -/
def Program.cut (h : Handle) : List (Nat × Value F) → Program F M Unit
  | [] => .pure ()
  | part :: parts => do
    Program.tell h (.tokenizeNext part.1 part.2)
    cut h parts

variable [Callable F] {enter : F → Handle → Execution F M (Value F)} {fuel : Nat} {h : Handle}

/-- An amount that is not negative is cut off. -/
theorem Program.carries_tokenizeNext {t : Tape F} (n : Nat) (label : Value F) :
    ((Program.tell h (.tokenizeNext n label) : Program F M Unit).exec enter fuel).Carries h t ()
      (t.apply (.tokenizeNext n label)) := by
  refine carries_tell trivial fun amount label' hsame => ?_
  cases hsame
  omega

/-- The program that cuts carries the tape to where it is cut. -/
theorem Program.carries_cut (t : Tape F) (parts : List (Nat × Value F)) :
    ((Program.cut h parts : Program F M Unit).exec enter fuel).Carries h t () (t.cut parts) := by
  induction parts generalizing t with
  | nil => exact carries_pure
  | cons part parts ih => exact carries_bind (carries_tokenizeNext part.1 part.2) (ih _)

/-- A chain whose state cuts off one width and hands back itself, followed over a text with nothing
pending, cuts off as many as there are. -/
theorem Chain.carries_follow_cut {s : State F} {initial : Value F} {width : Nat}
    (hwidth : 0 < width) (label : Value F) (hinitial : initial.asState s.name = .ok (some s))
    (hcall : ∀ t : Tape F, (enter s.callee h).Carries h t initial
      (t.apply (.tokenizeNext width label)))
    (settings : Settings F) {n : Nat} {t : Tape F} (hpending : t.pending = [])
    (hn : pieceCount t.rest.length width ≤ n) :
    (follow enter settings h n (some s)).Carries h t
      (t.cut (List.replicate (pieceCount t.rest.length width) (width, label))).tokens
      (t.cut (List.replicate (pieceCount t.rest.length width) (width, label))) := by
  -- Induction on the links still allowed. Each link cuts one piece off, so that there is one
  -- less to come.
  induction n generalizing t with
  | zero =>
      have hnone : t.rest = [] := by
        have hzero : ¬0 * width < t.rest.length :=
          (lt_pieceCount_iff hwidth).not.mp (by omega)
        exact List.eq_nil_of_length_eq_zero (by omega)
      have hcount : pieceCount t.rest.length width = 0 := by omega
      rw [hcount]
      exact carries_follow_of_eq_nil hnone settings 0 s
  | succ n ih =>
      by_cases hrest : t.rest = []
      · have hcount : pieceCount t.rest.length width = 0 := by
          rw [hrest]
          exact Nat.div_eq_of_lt (by simp; omega)
        rw [hcount]
        exact carries_follow_of_eq_nil hrest settings (n + 1) s
      · have hpos : 0 < t.rest.length := List.length_pos_iff.mpr hrest
        have hcount := pieceCount_of_pos hpos hwidth
        have hleft : (t.apply (.tokenizeNext width label)).rest.length = t.rest.length - width := by
          rw [Tape.apply_tokenizeNext_of_pending_eq_nil hpending, List.length_drop]
        have hfollow := ih (t := t.apply (.tokenizeNext width label))
          (by rw [Tape.apply_tokenizeNext_of_pending_eq_nil hpending]) (by rw [hleft]; omega)
        rw [hleft] at hfollow
        rw [hcount, List.replicate_succ]
        exact carries_follow_of_ne_nil hrest (carries_link (hcall t) hinitial settings) hfollow

/-! ### Cuts of a new tokenizer -/

omit [Callable F] in
/-- With nothing pending, start and cursor stand before the text that is left. -/
theorem Tokenizer.Shows.start_eq {t : Tokenizer F} {ts : List (Token F)} {n : Nat}
    (ht : t.Shows ⟨ts, [], t.source.drop n⟩) (hn : n ≤ t.source.length) :
    t.start = n ∧ t.position = n := by
  have hlength := ht.inOrder.length_rest
  have hsame := ht.inOrder.pending_eq_nil_iff.mp ht.pending_eq
  rw [ht.rest_eq, List.length_drop] at hlength
  unfold size at hlength
  omega

/-- A program that cuts off parts ends on every machine, and the tokenizer stands as the tape
says. -/
theorem Machine.ends_cut (machine : Machine F M) {w : World F M} {t : Tape F}
    (hw : (w.get h).Shows t) (parts : List (Nat × Value F)) :
    ∃ v, machine.Ends (.cut h parts) w (.ok ()) v ∧ (v.get h).Shows (t.cut parts) ∧
      w.Reaches v := by
  have hcarries : (machine.exec 0 (.cut h parts)).Carries h t () (t.cut parts) :=
    Program.carries_cut t parts
  obtain ⟨v, hexec, hv⟩ := hcarries w hw
  have hreaches := machine.exec_reaches 0 (.cut h parts) w
  rw [hexec] at hreaches
  exact ⟨v, ⟨0, hexec⟩, hv, hreaches⟩

omit [Callable F] in
/-- At every moment a tokenizer is over the source that it was created with. -/
theorem World.Reaches.source_of_mem_moments_create {w v : World F M} {source : Text}
    (hr : (w.create source).2.Reaches v) {t : Tokenizer F}
    (ht : t ∈ v.moments w (w.create source).1) : t.source = source := by
  have hnew : ((w.create source).2.get (w.create source).1).source = source := by
    rw [w.get_create]
  rw [hr.moments_create] at ht
  rcases List.mem_cons.mp ht with rfl | ht
  · exact hnew
  · exact (hr.source_of_mem_moments (w.lt_next_create source) ht).trans hnew

omit [Callable F] in
/-- A value that stands for a state does so whatever handed it over. -/
theorem Value.asState_of_state? {v : Value F} {s : State F} (hv : v.state? = some s)
    (source : String) : v.asState source = .ok (some s) := by
  cases v <;> simp_all [state?, asState]

/-- A lexer with a state that cuts off one width and hands back itself ends with the strips. -/
theorem Machine.ends_lex_strips {machine : Machine F M} {s : State F} {initial : Value F}
    {width : Nat} {label : Value F} (hwidth : 0 < width) (hinitial : initial.state? = some s)
    (hmachine : ∀ k, machine s.callee k = do
      Program.tell k (.tokenizeNext width label)
      return initial) (w : World F M) (source : Text) :
    ∃ v, machine.Ends (.lex source initial) w
      (.ok ((List.range (pieceCount source.length width)).map (Token.strip source width label)))
      v := by
  have hnew : ((w.create source).2.get (w.create source).1).Shows (.ofSource source) := by
    rw [w.get_create]
    exact Tokenizer.shows_new source _
  -- One unit of fuel for each strip, and one more for what a call does.
  have hcall : ∀ t : Tape F,
      (machine.enter (pieceCount source.length width + 1) s.callee (w.create source).1).Carries
        (w.create source).1 t initial (t.apply (.tokenizeNext width label)) := by
    intro t
    refine Machine.carries_enter ?_
    rw [hmachine]
    exact Program.carries_bind (Program.carries_tokenizeNext width label) carries_pure
  obtain ⟨v, hfollow, _⟩ := Chain.carries_follow_cut hwidth label
    (Value.asState_of_state? hinitial s.name) hcall w.settings (t := .ofSource source)
    (n := pieceCount source.length width + 1) rfl (Nat.le_succ _) _ hnew
  refine ⟨v, pieceCount source.length width + 1, ?_⟩
  show Chain.run _ _ _ _ _ = _
  unfold Chain.run
  rw [Value.asState_of_state? hinitial]
  have hlength : (Tape.ofSource source : Tape F).rest.length = source.length := rfl
  rw [hlength, Tape.cut_ofSource, Token.pieces_replicate source hwidth] at hfollow
  exact hfollow

/-- **Amounts cut a text into its pieces, and tokens replay.** Take a new tokenizer over a text.
Told one amount after the other, it fails at none. Its tokens are then the pieces of the text, in
order, and start and cursor stand behind the last one. A lexer with a state that takes one width
and hands back itself ends with as many strips of this width as make up the text, the last one
shorter maybe. And whatever else is done to such a tokenizer, short of assigning start or cursor,
its tokens at any moment come out again when a new one cuts the text by their lengths. -/
theorem amounts_cut_and_tokens_replay (machine : Machine F M) (w : World F M) (source : Text) :
    let h := (w.create source).1
    let fresh := (w.create source).2
    (∀ parts : List (Nat × Value F), ∃ v, machine.Ends (.cut h parts) fresh (.ok ()) v ∧
      (v.get h).tokens = Token.pieces source parts ∧
      (v.get h).start = cutAt source.length parts parts.length ∧
      (v.get h).position = cutAt source.length parts parts.length) ∧
    (∀ {s : State F} {initial : Value F} {width : Nat} {label : Value F}, 0 < width →
      initial.state? = some s →
      (∀ k, machine s.callee k = do
        Program.tell k (.tokenizeNext width label)
        return initial) →
      let count := pieceCount source.length width
      let strips := (List.range count).map (Token.strip source width label)
      (∃ v, machine.Ends (.lex source initial) w (.ok strips) v) ∧
        Token.covered strips = source ∧
        ∀ i, i < count → 0 < (Token.strip source width label i).lexeme.length ∧
          (i + 1 < count → (Token.strip source width label i).lexeme.length = width)) ∧
    ∀ {α : Type} (fuel : Nat) (p : Program F M α),
      let v := (machine.exec fuel p fresh).2
      (∀ e ∈ v.since w, ¬e.Assigns h) → ∀ t ∈ v.moments w h,
        ∃ u, machine.Ends (.cut h (t.tokens.map fun k => (k.lexeme.length, k.label))) fresh
            (.ok ()) u ∧
          (u.get h).tokens = t.tokens ∧ (u.get h).start = t.start := by
  intro h fresh
  have hnew : (fresh.get h).Shows (.ofSource source) := by
    rw [w.get_create]
    exact Tokenizer.shows_new source _
  have hsource : ∀ {v : World F M}, fresh.Reaches v → (v.get h).source = source := by
    intro v hr
    rw [hr.source_eq (w.lt_next_create source), w.get_create]
  refine ⟨?_, ?_, ?_⟩
  · intro parts
    obtain ⟨v, hends, hv, hr⟩ := machine.ends_cut hnew parts
    rw [Tape.cut_ofSource, ← hsource hr] at hv
    obtain ⟨hstart, hposition⟩ := hv.start_eq (cutAt_le ..)
    rw [hsource hr] at hv hstart hposition
    exact ⟨v, hends, hv.tokens_eq, hstart, hposition⟩
  · intro s initial width label hwidth hinitial hmachine count strips
    refine ⟨Machine.ends_lex_strips hwidth hinitial hmachine w source,
      Token.covered_strips source hwidth label, fun i hi => ⟨?_, ?_⟩⟩
    · have hstart := (lt_pieceCount_iff hwidth).mp hi
      simp [Token.strip]
      omega
    · exact fun hlast => Token.length_strip hwidth hlast label
  · intro α fuel p v hassign t ht
    have hr : fresh.Reaches v := machine.exec_reaches fuel p fresh
    have hpartitioned := hr.partitioned_of_mem_moments_create hassign t ht
    have hover := hr.source_of_mem_moments_create ht
    have h₀ := hpartitioned.start_nonneg
    have h₁ := hpartitioned.start_le_position
    have h₂ := hpartitioned.position_le_size
    unfold Tokenizer.size at h₂
    rw [hover] at h₂
    -- The source is the text that the tokens cover, and what lies behind their start.
    have hsplit : source = Token.covered t.tokens ++ source.drop t.start.toNat := by
      rw [hpartitioned.covered_tokens, hover, List.take_append_drop]
    obtain ⟨u, hends, hu, hr'⟩ :=
      machine.ends_cut hnew (t.tokens.map fun k => (k.lexeme.length, k.label))
    rw [Tape.cut_tokens t.tokens hpartitioned.lexeme_ne_nil rfl hsplit, ← hsource hr'] at hu
    obtain ⟨hstart, _⟩ := hu.start_eq (by rw [hsource hr']; omega)
    exact ⟨u, hends, by simpa [Tape.ofSource] using hu.tokens_eq, by omega⟩

omit [Callable F] in
/-- Amounts of which one is zero and one too large, a lexer of one state, and the replay of what a
chain of several states has emitted. -/
theorem amounts_cut_and_tokens_replay_two_lines :
    let machine : Machine Ini.StateId Unit := fun s k => match s with
      | .key => do
        Program.tell k (.tokenizeNext (2 : Nat) .none)
        return .callable .key
      | s => Ini.body id s k
    let w : World Ini.StateId Unit := { memory := () }
    let source : Text := "; a\nbcd".toList
    let fresh := (w.create source).2
    let v := (machine.exec 20 (.run 0 (Ini.handOver id .line)) fresh).2
    (∃ u, machine.Ends (.cut 0 [(3, .none), (0, .text), (9, .text)]) fresh (.ok ()) u ∧
      (u.get 0).tokens.map (·.lexeme) = ["; a".toList, "\nbcd".toList] ∧ (u.get 0).start = 7) ∧
      (∃ u, machine.Ends (.lex source (.callable .key)) w
        (.ok ((List.range 4).map (Token.strip source 2 .none))) u) ∧
      ∃ u, machine.Ends (.cut 0 ((v.get 0).tokens.map fun k => (k.lexeme.length, k.label))) fresh
          (.ok ()) u ∧
        (u.get 0).tokens = (v.get 0).tokens ∧
        (v.get 0).tokens.map (·.lexeme) = ["; a".toList, "\n".toList, "bc".toList, "d".toList] := by
  intro machine w source fresh v
  obtain ⟨hcut, hlex, hreplay⟩ := amounts_cut_and_tokens_replay machine w source
  have hstrips : ∃ u, machine.Ends (.lex source (.callable .key)) w
      (.ok ((List.range (pieceCount source.length 2)).map (Token.strip source 2 .none))) u :=
    (hlex Nat.two_pos rfl fun _ => rfl).1
  have hcount : pieceCount source.length 2 = 4 := by decide
  rw [hcount] at hstrips
  refine ⟨?_, hstrips, ?_⟩
  · obtain ⟨u, hends, htokens, hstart, _⟩ := hcut [(3, .none), (0, .text), (9, .text)]
    refine ⟨u, hends, ?_, hstart⟩
    have hpieces : (u.get 0).tokens = _ := htokens
    rw [hpieces]
    decide +kernel
  · have hmoment : v.get 0 ∈ v.moments w 0 :=
      List.mem_append_right _ (List.mem_singleton.mpr rfl)
    obtain ⟨u, hends, htokens, _⟩ := hreplay 20 (.run 0 (Ini.handOver id .line)) (by decide +kernel)
      (v.get 0) hmoment
    exact ⟨u, hends, htokens, by decide +kernel⟩

end LexChain
