import LexChain.Proofs.Tape

/-!
# `LexChain.Proofs.Ini.Grammar`: the grammar of settings files

A settings file is a sequence of tokens of eight kinds. `Kind.Reads` says which
texts are of a kind, and `Kind.Follows` which tokens may come directly after one
of a given kind. A `Phrase` is a sequence that obeys both, from one place of a
file to another, and a list of tokens is `Grammatical` if it is a phrase from the
beginning on.

Every text is cut into tokens in one way at most: `Phrase.eq_of_covered_eq`. The
kind of a token is settled by the kind before it and by its first character
(`Follows.eq_decided`), and its length by the characters that the kind goes on
over (`Kind.keeps`), since no token that may come next begins with one of these
(`Phrase.keeps_head`).
-/

set_option autoImplicit false

namespace LexChain.Ini

variable {F : Type}

/-- The kinds of token in a settings file. -/
inductive Kind where
  | blank | comment | opening | closing | name | key | equals | value
  deriving DecidableEq, Repr

namespace Kind

/-- The category of the tokens of a kind. -/
def category : Kind → Category
  | blank => .whitespace
  | comment => .comment
  | opening | closing => .bracket
  | name => .identifier
  | key => .key
  | equals => .operator
  | value => .string

/-- Whether a text is of a kind. -/
def Reads : Kind → Text → Prop
  | blank, s => s ≠ [] ∧ ∀ c ∈ s, Text.isBlank c = true
  | comment, s => (s.head? = some ';' ∨ s.head? = some '#') ∧ '\n' ∉ s
  | opening, s => s = ['[']
  | closing, s => s = [']']
  | name, s => s ≠ [] ∧ ']' ∉ s ∧ '\n' ∉ s
  | key, s => s ≠ [] ∧ '=' ∉ s ∧ '\n' ∉ s ∧
      ∀ c, s.head? = some c → Text.isBlank c = false ∧ c ≠ ';' ∧ c ≠ '#' ∧ c ≠ '['
  | equals, s => s = ['=']
  | value, s => s ≠ [] ∧ '\n' ∉ s

/-- Whether a token is whitespace that begins with the end of a line. -/
def EndsLine (k : Kind) (s : Text) : Prop := k = blank ∧ s.head? = some '\n'

/-- Whether a token of a kind, with a text, may come directly after a token of
another kind, or at the beginning. -/
def Follows (k : Kind) (s : Text) : Option Kind → Prop
  | none | some closing => k ∈ [blank, comment, opening, key, equals]
  | some blank => k ∈ [comment, opening, key, equals]
  | some comment | some value => EndsLine k s
  | some key => k = equals ∨ EndsLine k s
  | some equals => k = value ∨ EndsLine k s
  | some opening => k = name ∨ k = closing ∨ EndsLine k s
  | some name => k = closing ∨ EndsLine k s

end Kind

/-- A sequence of tokens that may stand between a token of one kind, or the
beginning of a file, and whatever follows a token of another. -/
inductive Phrase : Option Kind → List (Token F) → Option Kind → Prop
  | nil (before : Option Kind) : Phrase before [] before
  | cons {before after : Option Kind} {k : Kind} {s : Text} {ts : List (Token F)}
      (hfollows : k.Follows s before) (hreads : k.Reads s) (hrest : Phrase (some k) ts after) :
      Phrase before (⟨s, .category k.category⟩ :: ts) after

/-- A whole file as a sequence of tokens. -/
def Grammatical (ts : List (Token F)) : Prop := ∃ after, Phrase none ts after

/-! ### First characters and the others -/

namespace Kind

/-- The characters that a token of a kind begins with. -/
def starts : Kind → Char → Bool
  | blank, c => Text.isBlank c
  | comment, c => c == ';' || c == '#'
  | opening, c => c == '['
  | closing, c => c == ']'
  | name, c => c != ']' && c != '\n'
  | key, c => !Text.isBlank c && c != ';' && c != '#' && c != '[' && c != '='
  | equals, c => c == '='
  | value, c => c != '\n'

/-- The characters that a token of a kind goes on over after its first one. -/
def keeps : Kind → Char → Bool
  | blank, c => Text.isBlank c
  | comment, c | value, c => c != '\n'
  | opening, _ | closing, _ | equals, _ => false
  | name, c => c != ']' && c != '\n'
  | key, c => c != '=' && c != '\n'

/-- No token is empty. -/
theorem not_reads_nil (k : Kind) : ¬k.Reads [] := by
  cases k <;> simp [Reads]

/-- A kind reads a first character of one class and others of another. -/
theorem reads_cons_iff (k : Kind) (c : Char) (r : Text) :
    k.Reads (c :: r) ↔ k.starts c = true ∧ ∀ d ∈ r, k.keeps d = true := by
  have hnewline : Text.isBlank '\n' = true := rfl
  -- Brackets and the equals sign are one character. All other kinds read on to a stop, and the
  -- first character may be barred where later ones are not.
  cases k with
  | blank => simp [Reads, starts, keeps]
  | comment | value | name | key =>
      simp only [Reads, starts, keeps]
      grind
  | opening | closing | equals =>
      cases r with
      | nil => simp [Reads, starts]
      | cons d r =>
          simp only [Reads, keeps, List.forall_mem_cons]
          simp

/-- The kind of the next token, settled by the kind before it and by the token's
first character. -/
def decided (before : Option Kind) (c : Char) : Kind :=
  match before with
  | none | some blank | some closing =>
    if Text.isBlank c then blank
    else if c = ';' ∨ c = '#' then comment
    else if c = '[' then opening
    else if c = '=' then equals
    else key
  | some comment | some value => blank
  | some key => if c = '=' then equals else blank
  | some equals => if c = '\n' then blank else value
  | some opening | some name =>
    if c = ']' then closing else if c = '\n' then blank else name

/-- No character that marks the kind of a token is whitespace. -/
theorem isBlank_of_mem_marks : ∀ d ∈ [';', '#', '[', '='], Text.isBlank d = false := by
  intro d hd
  simp only [List.mem_cons, List.not_mem_nil, or_false] at hd
  rcases hd with rfl | rfl | rfl | rfl <;> rfl

/-- There is no choice of kind. -/
theorem Follows.eq_decided {k : Kind} {c : Char} {r : Text} {before : Option Kind}
    (hfollows : k.Follows (c :: r) before) (hstarts : k.starts c = true) :
    k = decided before c := by
  have hmarks := isBlank_of_mem_marks
  -- After each kind the kinds that may come begin with characters of their own.
  rcases before with _ | b
  · cases k <;> simp_all [Follows, starts, decided]
    rcases hstarts with rfl | rfl <;> simp [hmarks]
  · cases b <;> cases k <;> simp_all [Follows, EndsLine, starts, decided]
    all_goals rcases hstarts with rfl | rfl <;> simp [hmarks]

/-- Nothing that may follow a token begins with a character that the token would
have gone on over. -/
theorem Follows.keeps_eq_false {b k : Kind} {c : Char} {r : Text}
    (hfollows : k.Follows (c :: r) (some b)) (hstarts : k.starts c = true) :
    b.keeps c = false := by
  have hmarks := isBlank_of_mem_marks
  cases b <;> cases k <;> simp_all [Follows, EndsLine, starts, keeps]
  rcases hstarts with rfl | rfl <;> simp [hmarks]

end Kind

/-! ### One way to cut a text -/

namespace Phrase

/-- After a token of a kind comes no character that it would have gone on over. -/
theorem keeps_head {k : Kind} {ts : List (Token F)} {after : Option Kind}
    (hts : Phrase (some k) ts after) {c : Char} {r : Text} (hc : Token.covered ts = c :: r) :
    k.keeps c = false := by
  cases hts with
  | nil => simp [Token.covered] at hc
  | @cons _ _ k' s ts hfollows hreads hrest =>
      cases s with
      | nil => exact absurd hreads k'.not_reads_nil
      | cons d s =>
          obtain ⟨rfl, _⟩ : d = c ∧ s ++ Token.covered ts = r := by
            simpa [Token.covered] using hc
          exact hfollows.keeps_eq_false (k'.reads_cons_iff d s |>.mp hreads).1

/-- No phrase but the empty one covers nothing. -/
theorem eq_nil {before after : Option Kind} {ts : List (Token F)} (hts : Phrase before ts after)
    (hnil : Token.covered ts = []) : ts = [] := by
  cases hts with
  | nil => rfl
  | @cons _ _ k s ts hfollows hreads hrest =>
      cases s with
      | nil => exact absurd hreads k.not_reads_nil
      | cons d s => simp [Token.covered] at hnil

/-- The first token of a phrase and what the others cover, read off the text. -/
theorem takeWhile_keeps {k : Kind} {s : Text} {ts : List (Token F)} {after : Option Kind}
    (hs : ∀ d ∈ s, k.keeps d = true) (hts : Phrase (some k) ts after) :
    (s ++ Token.covered ts).takeWhile k.keeps = s := by
  -- The token is taken as a whole, and what follows does not go on with it.
  rw [List.takeWhile_append_of_pos hs]
  cases hc : Token.covered ts with
  | nil => simp
  | cons c r => simp [hts.keeps_head hc]

/-- **A text is cut in one way at most**: two phrases from the same place on that
cover the same text are equal. -/
theorem eq_of_covered_eq {before after after' : Option Kind} {ts us : List (Token F)}
    (hts : Phrase before ts after) (hus : Phrase before us after')
    (hcovered : Token.covered ts = Token.covered us) : ts = us := by
  -- The other phrase has to begin with the same token, and then the rest is the same.
  induction hts generalizing us after' with
  | nil before => exact (hus.eq_nil hcovered.symm).symm
  | @cons before after k s ts hfollows hreads hrest ih =>
      cases hus with
      | nil => exact (Phrase.cons hfollows hreads hrest).eq_nil hcovered
      | @cons _ _ k' s' us hfollows' hreads' hrest' =>
          cases s with
          | nil => exact absurd hreads k.not_reads_nil
          | cons c r =>
              cases s' with
              | nil => exact absurd hreads' k'.not_reads_nil
              | cons c' r' =>
                  obtain ⟨rfl, htail⟩ : c = c' ∧
                      r ++ Token.covered ts = r' ++ Token.covered us := by
                    simpa [Token.covered] using hcovered
                  obtain ⟨hstarts, hkeeps⟩ := (k.reads_cons_iff c r).mp hreads
                  obtain ⟨hstarts', hkeeps'⟩ := (k'.reads_cons_iff c r').mp hreads'
                  -- The same first character after the same kind: the same kind again.
                  obtain rfl : k = k' :=
                    (hfollows.eq_decided hstarts).trans (hfollows'.eq_decided hstarts').symm
                  -- And the same length: both go on as far as the kind does.
                  have hr : r = r' := by
                    rw [← takeWhile_keeps hkeeps hrest, htail, takeWhile_keeps hkeeps' hrest']
                  rw [hr] at htail ⊢
                  rw [ih hrest' (List.append_cancel_left htail)]

/-- A phrase can be followed by one that begins where it ends. -/
theorem append {before middle after : Option Kind} {ts us : List (Token F)}
    (hts : Phrase before ts middle) (hus : Phrase middle us after) :
    Phrase before (ts ++ us) after := by
  induction hts with
  | nil => exact hus
  | cons hfollows hreads _ ih => exact .cons hfollows hreads (ih hus)

end Phrase

end LexChain.Ini
