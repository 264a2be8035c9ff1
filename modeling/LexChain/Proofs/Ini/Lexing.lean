import LexChain.Proofs.Ini.Calls
import LexChain.Proofs.Ini.Grammar

/-!
# `LexChain.Proofs.Ini.Lexing`: the lexer finds the tokens of the grammar

Lexing a settings file gives the one list of tokens that the grammar allows for
its text: `lex_grammatical_unique`. `Phrase.eq_of_covered_eq` says that there is one
at most, so the lexer only has to find one.

`Ready` is the invariant behind that. It says of each state which token may stand
before it and how the text may go on when it is called. A call adds a phrase to
the tokens and leaves the state that it hands over to ready again
(`Ready.adds_call`); so the whole chain adds a phrase (`Ready.adds_drive`), and
as it loses no text the phrase covers what was left.
-/

set_option autoImplicit false

namespace LexChain.Ini

variable {F M : Type} {t u v : Tape F} {before middle after : Option Kind}

/-! ### Phrases added to a tape -/

/-- The second tape has a phrase more than the first one, and neither has text
pending. -/
def Adds (t : Tape F) (before : Option Kind) (u : Tape F) (after : Option Kind) : Prop :=
  t.pending = [] ∧ u.pending = [] ∧
    ∃ ts, Phrase before ts after ∧ u.tokens = t.tokens ++ ts

/-- Nothing is added at first. -/
theorem Adds.refl (hpending : t.pending = []) (before : Option Kind) :
    Adds t before t before :=
  ⟨hpending, hpending, [], .nil before, (List.append_nil _).symm⟩

/-- Phrases are added one after the other. -/
theorem Adds.trans (htu : Adds t before u middle) (huv : Adds u middle v after) :
    Adds t before v after := by
  obtain ⟨hpending, _, ts, hts, hu⟩ := htu
  obtain ⟨_, hpending', us, hus, hv⟩ := huv
  exact ⟨hpending, hpending', ts ++ us, hts.append hus, by rw [hv, hu, List.append_assoc]⟩

/-- A token added. -/
theorem adds_token {k : Kind} {s : Text} (hpending : t.pending = []) (hpending' : u.pending = [])
    (hreads : k.Reads s) (hfollows : k.Follows s before)
    (htokens : u.tokens = t.tokens ++ Tape.piece s (.category k.category)) :
    Adds t before u (some k) := by
  refine ⟨hpending, hpending', [⟨s, .category k.category⟩], .cons hfollows hreads (.nil _), ?_⟩
  have hs : s ≠ [] := fun h => k.not_reads_nil (h ▸ hreads)
  rw [htokens, Tape.piece, if_neg hs]

/-- A token is read as far as its kind goes on. -/
theorem Kind.reads_takeWhile {k : Kind} {c : Char} (hstarts : k.starts c = true)
    (hkeeps : k.keeps c = true) (r : Text) : k.Reads ((c :: r).takeWhile k.keeps) := by
  rw [List.takeWhile_cons_of_pos hkeeps, k.reads_cons_iff]
  exact ⟨hstarts, fun d hd => List.all_eq_true.mp List.all_takeWhile d hd⟩

/-- A token of a kind is read, if there is a character at the cursor that the kind
goes on over, and otherwise nothing. -/
theorem adds_readTo {k : Kind} {stops : List Char} (hstops : (!stops.contains ·) = k.keeps)
    (hpending : t.pending = [])
    (hnext : ∀ c, t.rest.head? = some c → k.keeps c = true →
      k.starts c = true ∧ ∀ s : Text, s.head? = some c → k.Follows s before) :
    Adds t before (readTo stops k.category t)
      (if t.rest.head?.any k.keeps then some k else before) := by
  -- Nothing is read if the first character is a stop. Otherwise one token is, up to the first
  -- stop.
  cases hany : t.rest.head?.any k.keeps with
  | false =>
      rw [readTo, hstops, Tape.passWhile_eq_self hany, Tape.flush_of_pending_eq_nil hpending]
      exact .refl hpending before
  | true =>
      obtain ⟨c, hhead, hkeeps⟩ := (Option.any_eq_true _ _).mp hany
      obtain ⟨hstarts, hfollows⟩ := hnext c hhead hkeeps
      obtain ⟨r, hrest⟩ := List.head?_eq_some_iff.mp hhead
      have hreads := Kind.reads_takeWhile hstarts hkeeps r
      rw [← hrest] at hreads
      refine adds_token hpending rfl hreads (hfollows _ ?_) ?_
      · rw [hrest, List.takeWhile_cons_of_pos hkeeps]
        rfl
      · rw [readTo, hstops, Tape.passWhile_eq, Tape.flush, hpending, List.nil_append]

/-- A token of one character is read. -/
theorem adds_readOne {k : Kind} {c : Char} (hpending : t.pending = [])
    (hhead : t.rest.head? = some c) (hreads : k.Reads [c]) (hfollows : k.Follows [c] before) :
    Adds t before (readOne k.category t) (some k) := by
  obtain ⟨r, hrest⟩ := List.head?_eq_some_iff.mp hhead
  refine adds_token hpending rfl hreads hfollows ?_
  simp [readOne, Tape.apply, Tape.flush, Tape.pass, hpending, hrest, Tape.piece]

/-- Whitespace is read. -/
theorem adds_consumeBlanks {c : Char} (hpending : t.pending = [])
    (hhead : t.rest.head? = some c) (hblank : Text.isBlank c = true)
    (hfollows : ∀ s : Text, s.head? = some c → Kind.blank.Follows s before) :
    Adds t before (t.apply .consumeBlanks) (some .blank) := by
  obtain ⟨r, hrest⟩ := List.head?_eq_some_iff.mp hhead
  have hreads := Kind.reads_takeWhile (k := .blank) hblank hblank r
  rw [← hrest] at hreads
  refine adds_token hpending rfl hreads (hfollows _ ?_) ?_
  · rw [hrest, List.takeWhile_cons_of_pos (p := Kind.blank.keeps) hblank]
    rfl
  · simp only [Tape.apply]
    rw [Tape.flush_of_pending_eq_nil hpending, Tape.passWhile_eq, Tape.flush, hpending]
    rfl

/-! ### The invariant -/

/-- Whether a line may start, or go on with a key or a comment, after a token. -/
def StartsLine : Option Kind → Prop
  | none | some .blank | some .closing => True
  | _ => False

/-- Whether the text ends here, or the line does. -/
def EndsHere (rest : Text) : Prop := ∀ c, rest.head? = some c → c = '\n'

/-- Which token may stand before the cursor and how the text may go on when a
state is called. -/
def Ready : StateId → Option Kind → Text → Prop
  | .line, some .blank, rest => ∀ c, rest.head? = some c → Text.isBlank c = false
  | .line, none, _ | .line, some .closing, _ => True
  | .line, some _, rest => EndsHere rest
  | .comment, before, rest =>
    StartsLine before ∧ (rest.head? = some ';' ∨ rest.head? = some '#')
  | .sectionName, before, _ => before = some .opening
  | .key, before, rest => StartsLine before ∧
    ∃ c, rest.head? = some c ∧ Text.isBlank c = false ∧ c ≠ ';' ∧ c ≠ '#' ∧ c ≠ '['

/-- What starts a line, whitespace and text apart. -/
theorem StartsLine.follows (hstarts : StartsLine before) {k : Kind}
    (hk : k ∈ [Kind.comment, .opening, .key, .equals]) (s : Text) : k.Follows s before := by
  rcases before with _ | b
  · exact List.mem_cons_of_mem _ hk
  · cases b with
    | blank => exact hk
    | closing => exact List.mem_cons_of_mem _ hk
    | _ => exact hstarts.elim

/-- A comment goes on up to the end of the line. -/
theorem stops_comment : (!List.contains ['\n'] ·) = Kind.comment.keeps := by
  funext c
  simp [Kind.keeps, Bool.beq_eq_decide_eq, bne]

/-- A value goes on up to the end of the line. -/
theorem stops_value : (!List.contains ['\n'] ·) = Kind.value.keeps := stops_comment

/-- The name of a section goes on up to its bracket or the end of the line. -/
theorem stops_name : (!List.contains [']', '\n'] ·) = Kind.name.keeps := by
  funext c
  simp [Kind.keeps, Bool.beq_eq_decide_eq, bne]

/-- A key goes on up to its sign or the end of the line. -/
theorem stops_key : (!List.contains ['=', '\n'] ·) = Kind.key.keeps := by
  funext c
  simp [Kind.keeps, Bool.beq_eq_decide_eq, bne]

/-- What is left behind a token begins with none of the characters that its kind
goes on over. -/
theorem keeps_head_readTo {k : Kind} {stops : List Char}
    (hstops : (!stops.contains ·) = k.keeps) {c : Char}
    (hc : (readTo stops k.category t).rest.head? = some c) : k.keeps c = false := by
  rw [rest_readTo, hstops] at hc
  have hnot := List.head?_dropWhile_not k.keeps t.rest
  rwa [hc] at hnot

/-- A call for a comment adds it. -/
theorem Ready.adds_call_comment (hready : Ready .comment before t.rest)
    (hpending : t.pending = []) :
    ∃ after, Adds t before (call .comment t).2 after ∧
      Ready .line after (call .comment t).2.rest := by
  obtain ⟨hstarts, hhead⟩ := hready
  have hcomment : Adds t before (readTo ['\n'] .comment t) _ :=
    adds_readTo stops_comment hpending fun c hc _ => by
      refine ⟨?_, fun s _ => hstarts.follows (by simp) s⟩
      rcases hhead with h | h <;>
        · obtain rfl := Option.some.inj (h.symm.trans hc)
          rfl
  -- The comment has its first character at least.
  have hafter : t.rest.head?.any Kind.comment.keeps = true := by
    rcases hhead with h | h <;> rw [h] <;> rfl
  rw [hafter] at hcomment
  refine ⟨some .comment, hcomment, fun d hd => ?_⟩
  simpa [Kind.keeps] using keeps_head_readTo stops_comment hd

/-- A call for the name of a section adds the name, if there is one, and the bracket, if there is
one. -/
theorem Ready.adds_call_sectionName (hready : Ready .sectionName before t.rest)
    (hpending : t.pending = []) :
    ∃ after, Adds t before (call .sectionName t).2 after ∧
      Ready .line after (call .sectionName t).2.rest := by
  obtain rfl : before = some .opening := hready
  have hname : Adds t (some .opening) (readTo [']', '\n'] .identifier t) _ :=
    adds_readTo stops_name hpending fun c _ hkeeps => ⟨hkeeps, fun s _ => .inl rfl⟩
  simp only [call]
  split
  · next hclosing =>
      -- The bracket may follow the name, or the opening one if there is no name.
      refine ⟨some .closing, hname.trans (adds_readOne hname.2.1 hclosing rfl ?_), trivial⟩
      split
      · exact .inl rfl
      · exact .inr (.inl rfl)
  · next hclosing =>
      -- The name, or the place for it, ends with the line or the text.
      have hends : EndsHere (readTo [']', '\n'] .identifier t).rest := by
        intro d hd
        have hd' : d ≠ ']' := fun h => hclosing (h ▸ hd)
        simpa [Kind.keeps, hd'] using keeps_head_readTo stops_name hd
      refine ⟨_, hname, ?_⟩
      split <;> exact hends

/-- A call for a key adds it, if there is one, and sign and value, if there are any. -/
theorem Ready.adds_call_key (hready : Ready .key before t.rest) (hpending : t.pending = []) :
    ∃ after, Adds t before (call .key t).2 after ∧ Ready .line after (call .key t).2.rest := by
  obtain ⟨hstarts, c, hhead, hblank, hsemicolon, hhash, hopening⟩ := hready
  have hnewline : c ≠ '\n' := fun h => by simp [h, show Text.isBlank '\n' = true from rfl] at hblank
  have hkey : Adds t before (readTo ['=', '\n'] .key t) _ :=
    adds_readTo stops_key hpending fun d hd hkeeps => by
      obtain rfl := Option.some.inj (hhead.symm.trans hd)
      have hequals : c ≠ '=' := by simpa [Kind.keeps, hnewline] using hkeeps
      refine ⟨?_, fun s _ => hstarts.follows (by simp) s⟩
      simp [Kind.starts, hblank, hsemicolon, hhash, hopening, hequals]
  simp only [call]
  split
  · next hequals =>
      -- The equals sign may follow the key, or start the line if there is no key.
      have hoperator : Adds t before (readOne .operator (readTo ['=', '\n'] .key t))
          (some .equals) := by
        refine hkey.trans (adds_readOne hkey.2.1 hequals rfl ?_)
        split
        · exact .inl rfl
        · exact hstarts.follows (by simp) _
      have hvalue : Adds _ (some .equals) (readTo ['\n'] .string
          (readOne .operator (readTo ['=', '\n'] .key t))) _ :=
        adds_readTo stops_value hoperator.2.1 fun d _ hkeeps => ⟨hkeeps, fun s _ => .inl rfl⟩
      have hends : EndsHere (readTo ['\n'] .string
          (readOne .operator (readTo ['=', '\n'] .key t))).rest := by
        intro d hd
        simpa [Kind.keeps] using keeps_head_readTo stops_value hd
      refine ⟨_, hoperator.trans hvalue, ?_⟩
      split <;> exact hends
  · next hequals =>
      -- Behind no key at all there would be the equals sign that is not there.
      have hc : c ≠ '=' := by
        rintro rfl
        refine hequals ?_
        rw [readTo, stops_key, Tape.passWhile_eq_self (by rw [hhead]; rfl),
          Tape.flush_of_pending_eq_nil hpending]
        exact hhead
      have hsome : t.rest.head?.any Kind.key.keeps = true := by
        simp [hhead, Kind.keeps, hc, hnewline]
      rw [hsome] at hkey
      refine ⟨some .key, hkey, fun d hd => ?_⟩
      have hd' : d ≠ '=' := fun h => hequals (h ▸ hd)
      simpa [Kind.keeps, hd'] using keeps_head_readTo stops_key hd

/-- Whitespace may come wherever `line` is called. -/
theorem Ready.follows_blank {c : Char} {rest : Text} (hready : Ready .line before rest)
    (hhead : rest.head? = some c) (hblank : Text.isBlank c = true) (s : Text)
    (hs : s.head? = some c) : Kind.blank.Follows s before := by
  rcases before with _ | b
  · exact List.mem_cons_self
  · cases b with
    | closing => exact List.mem_cons_self
    | blank => exact absurd hblank (by rw [hready c hhead]; decide)
    | comment | value => exact ⟨rfl, hready c hhead ▸ hs⟩
    | key | equals | name => exact .inr ⟨rfl, hready c hhead ▸ hs⟩
    | opening => exact .inr (.inr ⟨rfl, hready c hhead ▸ hs⟩)

/-- Where `line` is called at a character that is no whitespace, a line starts. -/
theorem Ready.startsLine {c : Char} {rest : Text} (hready : Ready .line before rest)
    (hhead : rest.head? = some c) (hblank : ¬Text.isBlank c = true) : StartsLine before := by
  have hnewline : Text.isBlank '\n' = true := rfl
  rcases before with _ | b
  · trivial
  · cases b with
    | blank | closing => trivial
    | _ => exact hblank (hready c hhead ▸ hnewline)

/-- A call at the beginning of a line adds what can be told from its first character. -/
theorem Ready.adds_call_line (hready : Ready .line before t.rest) (hpending : t.pending = [])
    (hrest : t.rest ≠ []) :
    ∃ after, Adds t before (call .line t).2 after ∧
      Ready (call .line t).1 after (call .line t).2.rest := by
  obtain ⟨c, r, hc⟩ := List.exists_cons_of_ne_nil hrest
  have hhead : t.rest.head? = some c := by rw [hc]; rfl
  simp only [call, hc]
  -- The branches are those of the state: blanks are consumed here, brackets are emitted here,
  -- and all else is left to the state of its kind.
  by_cases hblank : Text.isBlank c = true
  · rw [if_pos hblank]
    refine ⟨some .blank, adds_consumeBlanks hpending hhead hblank
      (hready.follows_blank hhead hblank), fun d hd => ?_⟩
    rw [rest_consumeBlanks] at hd
    have hnot := List.head?_dropWhile_not Text.isBlank t.rest
    rwa [hd] at hnot
  · -- A line starts here, and the state for what it starts with is ready for it.
    have hstarts := hready.startsLine hhead hblank
    rw [if_neg hblank]
    by_cases hcomment : c = ';' ∨ c = '#'
    · rw [if_pos hcomment]
      refine ⟨before, .refl hpending before, hstarts, ?_⟩
      rw [hhead]
      exact hcomment.imp (congrArg some) (congrArg some)
    · rw [if_neg hcomment]
      obtain ⟨hsemicolon, hhash⟩ := not_or.mp hcomment
      by_cases hopening : c = '['
      · rw [if_pos hopening]
        exact ⟨some .opening, adds_readOne hpending hhead (congrArg (fun d => [d]) hopening)
          (hstarts.follows (by simp) _), rfl⟩
      · rw [if_neg hopening]
        exact ⟨before, .refl hpending before, hstarts, c, hhead,
          Bool.not_eq_true _ ▸ hblank, hsemicolon, hhash, hopening⟩

/-- **A call keeps the invariant**: a state that is ready adds a phrase, and the
state that it hands over to is ready behind that. -/
theorem Ready.adds_call {s : StateId} (hready : Ready s before t.rest) (hpending : t.pending = [])
    (hrest : t.rest ≠ []) :
    ∃ after, Adds t before (call s t).2 after ∧ Ready (call s t).1 after (call s t).2.rest := by
  cases s with
  | line => exact hready.adds_call_line hpending hrest
  | comment => exact hready.adds_call_comment hpending
  | sectionName => exact hready.adds_call_sectionName hpending
  | key => exact hready.adds_call_key hpending

/-- A chain adds a phrase as well, and no text is left behind it. -/
theorem Ready.adds_drive (s : StateId) (t : Tape F) (before : Option Kind)
    (hready : Ready s before t.rest) (hpending : t.pending = []) :
    (∃ after, Adds t before (drive s t) after) ∧ (drive s t).rest = [] ∧
      (drive s t).text = t.text := by
  -- Along the recursion of `drive`: the calls are added up one by one.
  induction s, t using drive.induct generalizing before with
  | case1 s t hrest =>
      rw [drive_of_eq_nil s hrest]
      exact ⟨⟨before, .refl hpending before⟩, hrest, rfl⟩
  | case2 s t hrest ih =>
      obtain ⟨middle, hadds, hready'⟩ := hready.adds_call hpending hrest
      obtain ⟨⟨after, hadds'⟩, hnone, htext⟩ := ih middle hready' hadds.2.1
      rw [drive_of_ne_nil s hrest]
      exact ⟨⟨after, hadds.trans hadds'⟩, hnone, htext.trans (text_call s t)⟩

/-! ### A whole file -/

/-- The tokens that a chain from the start of a text emits are a file's, and cover
the text. -/
theorem grammatical_drive (source : Text) :
    Grammatical (drive .line (.ofSource source : Tape F)).tokens ∧
      Token.covered (drive .line (.ofSource source : Tape F)).tokens = source := by
  obtain ⟨⟨after, _, hpending, ts, hts, htokens⟩, hrest, htext⟩ :=
    Ready.adds_drive .line (.ofSource source : Tape F) none trivial rfl
  have hall : ts = (drive .line (.ofSource source : Tape F)).tokens := by
    rw [htokens]
    rfl
  refine ⟨⟨after, hall ▸ hts⟩, ?_⟩
  rw [Tape.text, hpending, hrest] at htext
  simpa [Tape.text, Tape.ofSource, Token.covered] using htext

variable [Callable F]

/-- A lexer started on a text of its own, on any machine that hosts the states and
in any world, ends with the tokens of the chain over the text. -/
theorem exec_lex {machine : Machine F M} {embed : StateId → F} (hhosts : Hosts machine embed)
    {source : Text} {fuel : Nat} (hfuel : fuelFor source ≤ fuel) (w : World F M) :
    (machine.exec fuel (.lex source (handOver embed .line)) w).1
      = some (.ok (drive .line (.ofSource source : Tape F)).tokens) := by
  have hnew : ((w.create source).2.get (w.create source).1).Shows (.ofSource source) := by
    rw [World.get_create]
    exact Tokenizer.shows_new source _
  unfold fuelFor at hfuel
  -- Two calls for each character and one at the end are enough, and no loop is longer than the
  -- text.
  have hturns : turns .line (Tape.ofSource source : Tape F).rest ≤ 2 * source.length + 1 :=
    turns_le .line source
  have hloops : (Tape.ofSource source : Tape F).rest.length = source.length := rfl
  have hrun : (machine.exec fuel (.run (w.create source).1 (handOver embed .line))).Carries
      (w.create source).1 (.ofSource source) (drive .line (.ofSource source)).tokens
      (drive .line (.ofSource source)) :=
    carries_run hhosts .line (by omega) (by omega)
  obtain ⟨w', hw', _⟩ := hrun _ hnew
  exact congrArg Prod.fst hw'

/-- **Lexing a settings file gives the one list of tokens that the grammar allows.**
It does on every machine that hosts the states, in every world, and for malformed
files too. -/
theorem lex_grammatical_unique {machine : Machine F M} {embed : StateId → F}
    (hhosts : Hosts machine embed) {source : Text} {fuel : Nat} (hfuel : fuelFor source ≤ fuel)
    (w : World F M) :
    ∃ ts, (machine.exec fuel (.lex source (handOver embed .line)) w).1 = some (.ok ts) ∧
      ∀ us : List (Token F), Grammatical us ∧ Token.covered us = source ↔ us = ts := by
  obtain ⟨hgrammatical, hcovered⟩ := grammatical_drive (F := F) source
  refine ⟨_, exec_lex hhosts hfuel w, fun us => ⟨?_, ?_⟩⟩
  · rintro ⟨⟨after, hus⟩, hsource⟩
    obtain ⟨after', hdrive⟩ := hgrammatical
    exact hus.eq_of_covered_eq hdrive (hsource.trans hcovered.symm)
  · rintro rfl
    exact ⟨hgrammatical, hcovered⟩

/-- A file with an unclosed section, a key without a value, a value without a key,
and a bracket where a line starts. -/
theorem lex_grammatical_unique_malformed :
    ∃ ts, lex "[a\nb\n=c=\n]x\r\n;".toList = some (.ok ts) ∧
      ∀ us : List (Token StateId),
        Grammatical us ∧ Token.covered us = "[a\nb\n=c=\n]x\r\n;".toList ↔ us = ts :=
  lex_grammatical_unique hosts_machine (Nat.le_refl _) _

end LexChain.Ini
