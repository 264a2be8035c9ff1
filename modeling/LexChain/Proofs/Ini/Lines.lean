import LexChain.Proofs.Ini.Lexing

/-!
# `LexChain.Proofs.Ini.Lines`: a newline starts afresh

What stands before a newline has no part in how the text behind it is cut into
tokens, and the other way round. So the tokens of `a`, a newline and `b` are those
of `a` and those of `b`, if whitespace is left out: the whitespace around the newline
becomes one token, while it may be none, one or two without it.

The argument is about the grammar alone. `Phrase.exists_before_newline` takes the
whitespace off the end of a phrase and puts whitespace with the newline in its place,
`Grammatical.exists_after_blank` takes the whitespace off the beginning of a file, and
the two are put together in `Grammatical.join`. As no text is cut in two ways
(`Phrase.eq_of_covered_eq`), what comes out is what lexing the joined text gives.
`newline_resynchronizes` says so of the lexer, for two texts and for any number of
lines.
-/

set_option autoImplicit false

namespace LexChain

variable {F M : Type}

/-! ### Tokens that are not whitespace -/

/-- Whether a token is labelled as whitespace. -/
def Token.isSpacing (t : Token F) : Bool :=
  match t.label with
  | .category .whitespace => true
  | _ => false

/-- The tokens of a list that are not whitespace, in order. -/
def Token.solid (ts : List (Token F)) : List (Token F) := ts.filter (!·.isSpacing)

/-- Solid tokens of one list and then of another. -/
@[simp] theorem Token.solid_append (ts us : List (Token F)) :
    solid (ts ++ us) = solid ts ++ solid us := List.filter_append ..

namespace Ini

variable {before after : Option Kind} {ts us : List (Token F)}

/-- Whitespace is the one kind that is left out. -/
theorem solid_cons (k : Kind) (s : Text) (ts : List (Token F)) :
    Token.solid (⟨s, .category k.category⟩ :: ts)
      = if k = .blank then Token.solid ts else ⟨s, .category k.category⟩ :: Token.solid ts := by
  cases k <;> rfl

/-! ### Whitespace at the ends of a phrase -/

/-- What may come next is a matter of kinds and of the first character. -/
theorem Kind.Follows.of_head? {k : Kind} {s s' : Text} (hfollows : k.Follows s before)
    (hs : s'.head? = s.head?) : k.Follows s' before := by
  rcases before with _ | b
  · exact hfollows
  · cases b <;> simp_all [Kind.Follows, Kind.EndsLine]

/-- A newline may come after everything but whitespace. -/
theorem Kind.follows_newline (hbefore : before ≠ some .blank) (r : Text) :
    Kind.blank.Follows ('\n' :: r) before := by
  rcases before with _ | b
  · simp [Kind.Follows]
  · cases b <;> simp_all [Kind.Follows, Kind.EndsLine]

/-- Whitespace with a newline in it is a token. -/
theorem Kind.reads_newline {s r : Text} (hs : ∀ c ∈ s, Text.isBlank c = true)
    (hr : ∀ c ∈ r, Text.isBlank c = true) : Kind.blank.Reads (s ++ '\n' :: r) := by
  have hnewline : Text.isBlank '\n' = true := rfl
  refine ⟨by simp, ?_⟩
  intro c hc
  rcases List.mem_append.mp hc with hc | hc
  · exact hs c hc
  · rcases List.mem_cons.mp hc with rfl | hc
    · exact hnewline
    · exact hr c hc

/-- **A newline may come at the end of every phrase.** It becomes one token with the
whitespace that the phrase ends with and with any whitespace behind it. -/
theorem Phrase.exists_before_newline (hts : Phrase before ts after)
    (hbefore : before ≠ some .blank ∨ ts ≠ []) {r : Text}
    (hr : ∀ c ∈ r, Text.isBlank c = true) :
    ∃ (us : List (Token F)) (s : Text), Token.covered ts = Token.covered us ++ s ∧
      Token.solid us = Token.solid ts ∧
      Phrase before (us ++ [⟨s ++ '\n' :: r, .category .whitespace⟩]) (some .blank) := by
  -- The whitespace that may come off is the last token, so only that one is looked at.
  induction hts with
  | nil before =>
      have hbefore : before ≠ some .blank := by simpa using hbefore
      have hreads : Kind.blank.Reads ([] ++ '\n' :: r) := Kind.reads_newline (by simp) hr
      exact ⟨[], [], rfl, rfl, .cons (Kind.follows_newline hbefore r) hreads (.nil _)⟩
  | @cons before after k s ts hfollows hreads hrest ih =>
      by_cases hend : k = .blank ∧ ts = []
      · obtain ⟨rfl, rfl⟩ := hend
        obtain ⟨hne, hblank⟩ := hreads
        have hfollows' : Kind.blank.Follows (s ++ '\n' :: r) before :=
          hfollows.of_head? (by simp [List.head?_append, List.head?_eq_some_head hne])
        exact ⟨[], s, by simp [Token.covered], rfl,
          .cons hfollows' (Kind.reads_newline hblank hr) (.nil _)⟩
      · have hnext : some k ≠ some .blank ∨ ts ≠ [] := by
          by_cases hk : k = .blank
          · exact .inr fun h => hend ⟨hk, h⟩
          · exact .inl (by simpa using hk)
        obtain ⟨us, s', hcovered, hsolid, hus⟩ := ih hnext
        refine ⟨⟨s, .category k.category⟩ :: us, s', ?_, ?_, .cons hfollows hreads hus⟩
        · simpa [Token.covered] using hcovered
        · rw [solid_cons, solid_cons, hsolid]

/-- A file goes on behind whitespace in the same way as from its beginning, its own
first whitespace apart. -/
theorem Grammatical.exists_after_blank (hus : Grammatical us) :
    ∃ (r : Text) (vs : List (Token F)) (after : Option Kind),
      (∀ c ∈ r, Text.isBlank c = true) ∧ Token.covered us = r ++ Token.covered vs ∧
      Token.solid vs = Token.solid us ∧ Phrase (some .blank) vs after := by
  obtain ⟨after, hus⟩ := hus
  cases hus with
  | nil => exact ⟨[], [], _, by simp, rfl, rfl, .nil _⟩
  | @cons _ _ k s us hfollows hreads hrest =>
      -- A blank at the start runs into the blank before it. Any other token stands behind a
      -- blank as it stands at the start.
      by_cases hk : k = .blank
      · subst hk
        exact ⟨s, us, after, hreads.2, rfl, rfl, hrest⟩
      · have hfollows' : k.Follows s (some .blank) := by
          simpa [Kind.Follows, hk] using hfollows
        exact ⟨[], _, after, by simp, rfl, rfl, .cons hfollows' hreads hrest⟩

/-- **Two files are joined by a newline**, with the same tokens but for whitespace. -/
theorem Grammatical.join (hts : Grammatical ts) (hus : Grammatical us) :
    ∃ vs : List (Token F), Grammatical vs ∧
      Token.covered vs = Token.covered ts ++ '\n' :: Token.covered us ∧
      Token.solid vs = Token.solid ts ++ Token.solid us := by
  obtain ⟨r, us', after', hr, hcovered', hsolid', hus'⟩ := hus.exists_after_blank
  obtain ⟨after, hts⟩ := hts
  obtain ⟨ts', s, hcovered, hsolid, hts'⟩ := hts.exists_before_newline (.inl (by simp)) hr
  refine ⟨_, ⟨after', hts'.append hus'⟩, ?_, ?_⟩
  · rw [hcovered, hcovered']
    simp [Token.covered]
  · have hspacing : Token.solid [⟨s ++ '\n' :: r, .category .whitespace⟩] = ([] : List (Token F)) :=
      rfl
    rw [Token.solid_append, Token.solid_append, hspacing, List.append_nil, hsolid, hsolid']

/-! ### The lexer -/

/-- The tokens of a joined text are those of its parts, but for whitespace. -/
theorem solid_drive_newline (a b : Text) :
    Token.solid (drive .line (.ofSource (a ++ '\n' :: b) : Tape F)).tokens
      = Token.solid (drive .line (.ofSource a : Tape F)).tokens
        ++ Token.solid (drive .line (.ofSource b : Tape F)).tokens := by
  obtain ⟨ha, hcovered_a⟩ := grammatical_drive (F := F) a
  obtain ⟨hb, hcovered_b⟩ := grammatical_drive (F := F) b
  obtain ⟨⟨_, hjoined⟩, hcovered⟩ := grammatical_drive (F := F) (a ++ '\n' :: b)
  obtain ⟨vs, ⟨_, hvs⟩, hcovered_vs, hsolid⟩ := ha.join hb
  -- The joined tokens cover the joined text, so they are what lexing it gives.
  have hsame : (drive .line (.ofSource (a ++ '\n' :: b) : Tape F)).tokens = vs := by
    apply hjoined.eq_of_covered_eq hvs
    rw [hcovered, hcovered_vs, hcovered_a, hcovered_b]
  rw [hsame, hsolid]

/-- The tokens of any number of lines are those of each line, but for whitespace. -/
theorem solid_drive_lines (lines : List Text) :
    Token.solid (drive .line (.ofSource (['\n'].intercalate lines) : Tape F)).tokens
      = lines.flatMap fun l => Token.solid (drive .line (.ofSource l : Tape F)).tokens := by
  induction lines with
  | nil =>
      rw [drive_of_eq_nil .line (t := (.ofSource (['\n'].intercalate []) : Tape F)) rfl]
      rfl
  | cons l ls ih =>
      cases ls with
      | nil => simp [List.intercalate]
      | cons l' ls =>
          -- The first newline is split off, and what is behind it are the lines again.
          have hsplit : ['\n'].intercalate (l :: l' :: ls)
              = l ++ '\n' :: ['\n'].intercalate (l' :: ls) := by
            simp [List.intercalate, List.intersperse]
          rw [hsplit, solid_drive_newline, ih]
          simp

variable [Callable F]

/-- **A newline resynchronizes the lexer.** On every machine that hosts its states
and in every world, lexing a text gives tokens that depend on the text alone. Those of
two texts joined by a newline are the tokens of the one and then those of the other,
whitespace apart, and so on for any number of lines: what stands in one line has no
part in how the others are read. -/
theorem newline_resynchronizes {machine : Machine F M} {embed : StateId → F}
    (hhosts : Hosts machine embed) :
    ∃ tokens : Text → List (Token F),
      (∀ (source : Text) (fuel : Nat) (w : World F M), fuelFor source ≤ fuel →
        (machine.exec fuel (.lex source (handOver embed .line)) w).1
          = some (.ok (tokens source))) ∧
      (∀ a b : Text, Token.solid (tokens (a ++ '\n' :: b))
        = Token.solid (tokens a) ++ Token.solid (tokens b)) ∧
      ∀ lines : List Text, Token.solid (tokens (['\n'].intercalate lines))
        = lines.flatMap fun l => Token.solid (tokens l) := by
  refine ⟨fun source => (drive .line (.ofSource source)).tokens, ?_, ?_, ?_⟩
  · intro source fuel w hfuel
    exact exec_lex hhosts hfuel w
  · exact solid_drive_newline
  · exact solid_drive_lines

/-- An unclosed section before the newline, and a value without a key after it. -/
theorem newline_resynchronizes_unclosed :
    let shown : Text → List (String × String) := fun source =>
      (Token.solid (Ini.tokens source)).map fun t => (String.ofList t.lexeme, t.label.title)
    (∃ ts, lex "[a \n =b".toList = some (.ok ts)) ∧
      shown "[a \n =b".toList = shown "[a ".toList ++ shown " =b".toList ∧
      shown "[a ".toList = [("[", "BRACKET"), ("a ", "IDENTIFIER")] ∧
      shown " =b".toList = [("=", "OPERATOR"), ("b", "STRING")] := by
  intro shown
  have hhosts : Hosts (machine : Machine StateId Unit) id := hosts_machine
  obtain ⟨tokens, hlex, hjoin, _⟩ := newline_resynchronizes hhosts
  have hexec : ∀ source, lex source = some (.ok (tokens source)) :=
    fun source => hlex source _ _ (Nat.le_refl _)
  have htokens : ∀ source, Ini.tokens source = tokens source := by
    intro source
    rw [Ini.tokens, hexec]
  refine ⟨⟨_, hexec _⟩, ?_, by decide +kernel, by decide +kernel⟩
  simp only [shown, htokens, ← List.map_append]
  exact congrArg _ (hjoin "[a ".toList " =b".toList)

end Ini

end LexChain
