import LexChain.Ini.States
import LexChain.Proofs.Equality
import Mathlib.Data.Set.Card

/-!
# `LexChain.Proofs.Hashing`: tokens in sets

A token can be a member of a set if it has a hash. The hash of a value is made of those of its parts
(`Value.hash`), and a list or a map among them is a fault. Which parts these are, `Value.reached`
says: what one comes to through tuples, named labels and tokens, in order. The first list or map
there makes the fault (`Value.outcome_hash`).

How hashes are made is left open. All that `Hashing` asks for is that equal numbers have one hash,
and equal callables. Then equal values have equal hashes, or fail with the same fault
(`Value.Equal.hash_eq`).

A set compares a new token only with members of the same hash (`Token.collect`), and still none of
its members is equal to another (`Token.collect_represents`).
`token_equality_and_hashing_agree` says so together with all that it rests on: a set has as many
members as there are classes of equal tokens among those put into it.
-/

set_option autoImplicit false

namespace LexChain

variable {F H : Type}

/-! ### Hashes of values -/

namespace Value

mutual

/-- What one comes to in a value through tuples, named labels and tokens, in order. -/
def reached : Value F → List (Value F)
  | tuple items => reachedIn items
  | named name => reached name
  | token _ label => reached label
  | v => [v]

/-- What one comes to in values. -/
def reachedIn : List (Value F) → List (Value F)
  | [] => []
  | v :: vs => reached v ++ reachedIn vs

end

/-- Whether a value is a list or a map. -/
def isCollection : Value F → Bool
  | list _ | map _ => true
  | _ => false

/-- A hash comes out, or the fault of the value that stands in the way. -/
inductive Outcome {α : Type} : Option (Value F) → Except Fault α → Prop
  | ok (x : α) : Outcome Option.none (.ok x)
  | error (v : Value F) : Outcome (some v) (.error (.unhashable v.typeName))

/-- What is made of a hash has the same obstacle. -/
theorem Outcome.map {α β : Type} {obstacle : Option (Value F)} {r : Except Fault α}
    (hr : Outcome obstacle r) (f : α → β) : Outcome obstacle (r.map f) := by
  cases hr with
  | ok x => exact .ok (f x)
  | error v => exact .error v

/-- The first obstacle counts. -/
theorem Outcome.bind {α β : Type} {obstacle obstacle' : Option (Value F)} {r : Except Fault α}
    {k : α → Except Fault β} (hr : Outcome obstacle r) (hk : ∀ x, Outcome obstacle' (k x)) :
    Outcome (obstacle.or obstacle') (r >>= k) := by
  cases hr with
  | ok x => exact hk x
  | error v => exact .error v

variable [BEq F]

mutual

/-- **What keeps a value from having a hash** is the first list or map that one comes to. -/
theorem outcome_hash (rule : Hashing F H) :
    ∀ v : Value F, Outcome (v.reached.find? isCollection) (v.hash rule)
  | none | bool _ | int _ | float _ | str _ | category _ | callable _ | state _ => .ok _
  | list _ | map _ => .error _
  | tuple items => (outcome_hashAll rule items).map rule.combine
  | named name => (outcome_hash rule name).map _
  | token _ label => (outcome_hash rule label).map _

/-- A row of values has hashes or fails as the first one that is reached says. -/
theorem outcome_hashAll (rule : Hashing F H) :
    ∀ vs : List (Value F), Outcome ((reachedIn vs).find? isCollection) (hashAll rule vs)
  | [] => .ok []
  | v :: vs => by
      rw [reachedIn, List.find?_append]
      exact (outcome_hash rule v).bind fun _ => (outcome_hashAll rule vs).map _

end

/-- What counts as the same integer has the same hash. -/
theorem hash_eq_of_integer? (rule : Hashing F H) {u v : Value F} {n : Int}
    (hu : u.integer? = some n) (hv : v.integer? = some n) : u.hash rule = v.hash rule := by
  have hatom : ∀ {w : Value F}, w.integer? = some n →
      w.hash rule = .ok (rule.atom w) ∧ w.number? = some (.ofInt n) := by
    intro w hw
    cases w <;> simp_all [integer?, hash, number?]
  have hsame : (Number.ofInt n).same (.ofInt n) = true := by simp [Number.same_ofInt]
  rw [(hatom hu).1, (hatom hv).1, rule.number_eq (hatom hu).2 (hatom hv).2 hsame]

mutual

/-- **Equal values have equal hashes**, or fail with the same fault. -/
theorem Equal.hash_eq (rule : Hashing F H) :
    ∀ {u v : Value F}, u.Equal v → u.hash rule = v.hash rule
  | _, _, .none | _, _, .str _ | _, _, .category _ => rfl
  | _, _, .list _ | _, _, .map _ _ => rfl
  | _, _, .integer hu hv => hash_eq_of_integer? rule hu hv
  | _, _, .tuple hitems => congrArg (Except.map rule.combine) (EqualAll.hashAll_eq rule hitems)
  | _, _, .named hname => congrArg (Except.map _) (Equal.hash_eq rule hname)
  | _, _, .token _ hlabel => congrArg (Except.map _) (Equal.hash_eq rule hlabel)
  | _, _, .callable hcallable => congrArg Except.ok (rule.callable_eq hcallable)
  | _, _, .state hlayers hcallee =>
    congrArg Except.ok (State.hash_eq_of_same rule (State.same_iff.mpr ⟨hlayers, hcallee⟩))

/-- Rows of equal values have equal hashes, or fail alike. -/
theorem EqualAll.hashAll_eq (rule : Hashing F H) :
    ∀ {us vs : List (Value F)}, EqualAll us vs → hashAll rule us = hashAll rule vs
  | _, _, .nil => rfl
  | _, _, .cons hfirst hrest => by
      rw [hashAll, hashAll, Equal.hash_eq rule hfirst, EqualAll.hashAll_eq rule hrest]

end

/-- **Maps are made without equal keys.** Whatever labels are put into a map one after the other, if
all keys have hashes, it is a label in turn. -/
theorem isLabel_mapOf (rule : Hashing F H) {entries : List (Value F × Value F)} {m : Value F}
    (hentries : ∀ e ∈ entries, e.1.isLabel = true ∧ e.2.isLabel = true)
    (hm : mapOf rule entries = .ok m) : m.isLabel = true := by
  -- What has been made of the first entries is a label, whatever they are.
  suffices hrest : ∀ made, (map made).isLabel = true →
      ∀ made', entries.foldlM (fun made e => do
        let _ ← e.1.hash rule
        return insert e.1 e.2 made) made = .ok made' → (map made').isLabel = true by
    unfold mapOf at hm
    generalize hfold : entries.foldlM (m := Except Fault) _ [] = r at hm
    cases r with
    | error e => cases hm
    | ok made =>
        obtain rfl : map made = m := Except.ok.inj hm
        exact hrest [] rfl made hfold
  clear hm
  induction entries with
  | nil =>
      rintro made hmade _ hfold
      obtain rfl := Except.ok.inj hfold
      exact hmade
  | cons e entries ih =>
      obtain ⟨hfirst, hothers⟩ := List.forall_mem_cons.mp hentries
      intro made hmade made' hfold
      rw [List.foldlM_cons] at hfold
      cases hhash : e.1.hash rule with
      | error fault =>
          rw [hhash] at hfold
          cases hfold
      | ok x =>
          rw [hhash] at hfold
          exact ih hothers _ (isLabel_insert hfirst.1 hfirst.2 hmade) made' hfold

end Value

/-! ### Hashes of tokens -/

namespace Token

variable [BEq F]

/-- Either one comes to no list or map in the label, or the first one makes the fault. -/
theorem hash_cases (rule : Hashing F H) (t : Token F) :
    (t.label.reached.find? Value.isCollection = none ∧ ∃ x, t.hash rule = .ok x) ∨
      ∃ v, t.label.reached.find? Value.isCollection = some v ∧
        t.hash rule = .error (.unhashable v.typeName) := by
  have houtcome : Value.Outcome (t.label.reached.find? Value.isCollection) (t.hash rule) :=
    Value.outcome_hash rule t.toValue
  generalize t.hash rule = r at houtcome
  generalize t.label.reached.find? Value.isCollection = obstacle at houtcome
  cases houtcome with
  | ok x => exact .inl ⟨rfl, x, rfl⟩
  | error v => exact .inr ⟨v, rfl, rfl⟩

/-- **A token has a hash** exactly when one comes to no list or map in its label. -/
theorem hash_isOk_iff (rule : Hashing F H) (t : Token F) :
    (∃ x, t.hash rule = .ok x) ↔ ∀ v ∈ t.label.reached, v.isCollection = false := by
  rcases t.hash_cases rule with ⟨hnone, hhash⟩ | ⟨v, hfind, hhash⟩
  · exact ⟨fun _ => by simpa using hnone, fun _ => hhash⟩
  -- What is found is a list or a map.
  · refine ⟨fun ⟨x, hx⟩ => ?_, fun hnone => ?_⟩
    · rw [hhash] at hx
      cases hx
    · have hv := hnone v (List.mem_of_find?_eq_some hfind)
      rw [List.find?_some hfind] at hv
      cases hv

/-- The fault of a token without a hash is that of the first list or map reached. -/
theorem hash_eq_error_iff (rule : Hashing F H) (t : Token F) (e : Fault) :
    t.hash rule = .error e ↔
      ∃ v, t.label.reached.find? Value.isCollection = some v ∧ e = .unhashable v.typeName := by
  rcases t.hash_cases rule with ⟨hnone, x, hhash⟩ | ⟨v, hfind, hhash⟩
  · simp [hnone, hhash]
  · simp [hfind, hhash, eq_comm]

/-- **Equal tokens have equal hashes**, or fail with the same fault. -/
theorem hash_eq_of_same [PartialEquivBEq F] (rule : Hashing F H) {t u : Token F}
    (ht : t.label.isLabel = true) (hu : u.label.isLabel = true) (hsame : t.same u = true) :
    t.hash rule = u.hash rule := by
  obtain ⟨hlexeme, hlabel⟩ := (same_iff ht hu).mp hsame
  have hvalues : t.toValue.Equal u.toValue := by
    rw [toValue, toValue, hlexeme]
    exact .token u.lexeme hlabel
  exact hvalues.hash_eq rule

/-! ### Sets of tokens -/

variable [EquivBEq F]

/-- The tokens that a token is equal to. -/
def peers (t : Token F) : Set (Token F) := {u | u.label.isLabel = true ∧ t.same u = true}

/-- Equal tokens are equal to the same ones. -/
theorem peers_eq_iff {t u : Token F} (ht : t.label.isLabel = true) (hu : u.label.isLabel = true) :
    t.peers = u.peers ↔ t.same u = true := by
  constructor
  · intro hpeers
    -- A token is its own peer, so equal sets of peers hold it both.
    have hmem : u ∈ u.peers := ⟨hu, equivalence_same.refl ⟨u, hu⟩⟩
    rw [← hpeers] at hmem
    exact hmem.2
  · intro htu
    have hut : u.same t = true := equivalence_same.symm (x := ⟨t, ht⟩) (y := ⟨u, hu⟩) htu
    ext v
    refine and_congr_right fun hv => ⟨fun htv => ?_, fun huv => ?_⟩
    · exact equivalence_same.trans (x := ⟨u, hu⟩) (y := ⟨t, ht⟩) (z := ⟨v, hv⟩) hut htv
    · exact equivalence_same.trans (x := ⟨t, ht⟩) (y := ⟨u, hu⟩) (z := ⟨v, hv⟩) htu huv

/-- Tokens of a list, one for each that is equal to it or to one like it, stand for all of them. -/
structure Represents (kept ts : List (Token F)) : Prop where
  subset : ∀ k ∈ kept, k ∈ ts
  apart : kept.Pairwise fun k l => k.same l = false
  covers : ∀ t ∈ ts, ∃ k ∈ kept, k.same t = true

omit [EquivBEq F] in
/-- A token that is equal to one of those does not have to be added. -/
theorem Represents.of_any {kept ts : List (Token F)} {t : Token F} (hkept : Represents kept ts)
    (hany : kept.any (·.same t) = true) : Represents kept (ts ++ [t]) where
  subset k hk := List.mem_append_left _ (hkept.subset k hk)
  apart := hkept.apart
  covers := by
    intro u hu
    rcases List.mem_append.mp hu with hu | hu
    · exact hkept.covers u hu
    · rw [List.mem_singleton.mp hu]
      exact List.any_eq_true.mp hany

/-- A token that is equal to none of those kept is kept in turn. -/
theorem Represents.append {kept ts : List (Token F)} {t : Token F} (hkept : Represents kept ts)
    (ht : t.label.isLabel = true) (hnone : kept.any (·.same t) = false) :
    Represents (kept ++ [t]) (ts ++ [t]) where
  subset := by
    intro k hk
    rcases List.mem_append.mp hk with hk | hk
    · exact List.mem_append_left _ (hkept.subset k hk)
    · exact List.mem_append_right _ hk
  apart := by
    refine List.pairwise_append.mpr ⟨hkept.apart, List.pairwise_singleton .., ?_⟩
    simpa using hnone
  covers := by
    intro u hu
    rcases List.mem_append.mp hu with hu | hu
    · obtain ⟨k, hk, hsame⟩ := hkept.covers u hu
      exact ⟨k, List.mem_append_left _ hk, hsame⟩
    · rw [List.mem_singleton.mp hu]
      exact ⟨t, List.mem_append_right _ (List.mem_singleton.mpr rfl),
        equivalence_same.refl ⟨t, ht⟩⟩

/-- **There are as many of them as classes of equal tokens.** Each class has one, and no two are of
one class. -/
theorem Represents.length_eq_ncard {kept ts : List (Token F)} (hkept : Represents kept ts)
    (hts : ∀ t ∈ ts, t.label.isLabel = true) :
    kept.length = {c | ∃ t ∈ ts, c = t.peers}.ncard := by
  classical
  have hlabels : ∀ k ∈ kept, k.label.isLabel = true := fun k hk => hts k (hkept.subset k hk)
  -- Tokens kept apart have different peers, and each class is that of a token kept. So the
  -- classes are as many as these.
  have hnodup : (kept.map peers).Nodup := by
    refine List.pairwise_map.mpr (hkept.apart.imp_of_mem ?_)
    intro k l hk hl hne hpeers
    rw [(peers_eq_iff (hlabels k hk) (hlabels l hl)).mp hpeers] at hne
    cases hne
  have hclasses : {c | ∃ t ∈ ts, c = t.peers} = (kept.map peers).toFinset := by
    ext c
    simp only [Set.mem_ofPred_eq, List.coe_toFinset, List.mem_map]
    constructor
    · rintro ⟨t, ht, rfl⟩
      obtain ⟨k, hk, hsame⟩ := hkept.covers t ht
      exact ⟨k, hk, (peers_eq_iff (hlabels k hk) (hts t ht)).mpr hsame⟩
    · rintro ⟨k, hk, rfl⟩
      exact ⟨k, hkept.subset k hk, rfl⟩
  rw [hclasses, Set.ncard_coe_finset, List.toFinset_card_of_nodup hnodup, List.length_map]

variable [DecidableEq H]

/-- Nothing is missed by comparing with members of the same hash only. -/
theorem any_same_of_hash (rule : Hashing F H) {kept : List (H × Token F)}
    (hkept : ∀ k ∈ kept, k.2.label.isLabel = true ∧ k.2.hash rule = .ok k.1) {t : Token F} {x : H}
    (ht : t.label.isLabel = true) (hx : t.hash rule = .ok x) :
    (kept.any fun k => k.1 == x && k.2.same t) = (kept.map Prod.snd).any (·.same t) := by
  rw [List.any_map, Bool.eq_iff_iff, List.any_eq_true, List.any_eq_true]
  refine exists_congr fun k => and_congr_right fun hk => ?_
  simp only [Bool.and_eq_true, beq_iff_eq, Function.comp_apply, and_iff_right_iff_imp]
  intro hsame
  have hhash := hash_eq_of_same rule (hkept k hk).1 ht hsame
  rw [(hkept k hk).2, hx] at hhash
  exact Except.ok.inj hhash

/-- **With a hash for every token the set comes out**, and its members stand for all tokens that
were put in. By induction from the last one on, which is joined or is equal to a member. -/
theorem collect_represents (rule : Hashing F H) {ts : List (Token F)}
    (hts : ∀ t ∈ ts, t.label.isLabel = true ∧ ∃ x, t.hash rule = .ok x) :
    ∃ kept, collect rule ts = .ok kept ∧ Represents (kept.map Prod.snd) ts ∧
      ∀ k ∈ kept, k.2.label.isLabel = true ∧ k.2.hash rule = .ok k.1 := by
  -- Induction from the end, as the set is filled from the left.
  induction ts using List.reverseRecOn with
  | nil =>
      exact ⟨[], rfl, ⟨fun k hk => hk, .nil, fun t ht => nomatch ht⟩, fun k hk => nomatch hk⟩
  | append_singleton ts t ih =>
      obtain ⟨kept, hcollect, hrepresents, hkept⟩ :=
        ih fun u hu => hts u (List.mem_append_left _ hu)
      obtain ⟨ht, x, hx⟩ := hts t (List.mem_append_right _ (List.mem_singleton.mpr rfl))
      -- Equal tokens have equal hashes, so looking within a bucket misses none.
      have hany := any_same_of_hash rule hkept ht hx
      have hjoined : collect rule (ts ++ [t]) = .ok (if (kept.map Prod.snd).any (·.same t)
          then kept else kept ++ [(x, t)]) := by
        rw [collect, List.foldlM_append, ← collect, hcollect]
        show (join rule kept t >>= pure) = _
        simp only [join, hx, hany, Except.map, bind_pure]
      refine ⟨_, hjoined, ?_⟩
      cases hfound : (kept.map Prod.snd).any (·.same t) with
      | true => exact ⟨hrepresents.of_any hfound, hkept⟩
      | false =>
          simp only [Bool.false_eq_true, if_false, List.map_append, List.map_cons, List.map_nil]
          refine ⟨hrepresents.append ht hfound, fun k hk => ?_⟩
          rcases List.mem_append.mp hk with hk | hk
          · exact hkept k hk
          · rw [List.mem_singleton.mp hk]
            exact ⟨ht, hx⟩

end Token

/-- **Equality of tokens and their hashes agree.** Labels are taken without floating-point numbers
and, as maps are made, without equal keys in a map.

* What is found of two tokens is an equivalence. It means equal lexemes and equal labels, where
  truth values and integers are equal as integers, and maps are equal in whatever order their
  entries stand. A list is never equal to a tuple, and a category to no number or string.
* A token has a hash exactly when one comes to no list or map in its label, and otherwise the first
  one of them makes the fault, which is one about types. Equal tokens have equal hashes, or fail
  alike.
* Tokens with hashes make up a set with as many members as there are classes of equal tokens among
  them, in whatever order and however often they are put in. -/
theorem token_equality_and_hashing_agree [BEq F] [EquivBEq F] [DecidableEq H]
    (rule : Hashing F H) :
    (Equivalence fun t u : {t : Token F // t.label.isLabel = true} => t.1.same u.1 = true) ∧
    (∀ t u : Token F, t.label.isLabel = true → u.label.isLabel = true →
      (t.same u = true ↔ t.lexeme = u.lexeme ∧ t.label.Equal u.label) ∧
        (t.same u = true → t.hash rule = u.hash rule)) ∧
    (∀ (b : Bool) (n : Int), (Value.bool b : Value F).same (.int n) = true ↔ n = b.toInt) ∧
    (∀ es fs : List (Value F × Value F), (Value.map es).isLabel = true → es.Perm fs →
      (Value.map es).same (.map fs) = true) ∧
    (∀ us vs : List (Value F), (Value.list us).same (.tuple vs) = false) ∧
    (∀ (c : Category) (v : Value F), (v.number? ≠ none ∨ ∃ s, v = .str s) →
      (Value.category c).same v = false) ∧
    (∀ (entries : List (Value F × Value F)) (m : Value F),
      (∀ e ∈ entries, e.1.isLabel = true ∧ e.2.isLabel = true) →
      Value.mapOf rule entries = .ok m → m.isLabel = true) ∧
    (∀ t : Token F,
      ((∃ x, t.hash rule = .ok x) ↔ ∀ v ∈ t.label.reached, v.isCollection = false) ∧
        ∀ e, t.hash rule = .error e ↔
          ∃ v, t.label.reached.find? Value.isCollection = some v ∧ e = .unhashable v.typeName) ∧
    (∀ typeName, (Fault.unhashable typeName).belongs .type = true) ∧
    ∀ ts : List (Token F),
      (∀ t ∈ ts, t.label.isLabel = true ∧ ∃ x, t.hash rule = .ok x) →
      ∃ kept, Token.collect rule ts = .ok kept ∧
        kept.length = {c | ∃ t ∈ ts, c = t.peers}.ncard ∧
        ∀ us : List (Token F), (∀ t, t ∈ us ↔ t ∈ ts) →
          ∃ kept', Token.collect rule us = .ok kept' ∧ kept'.length = kept.length := by
  refine ⟨Token.equivalence_same,
    fun t u ht hu => ⟨Token.same_iff ht hu, Token.hash_eq_of_same rule ht hu⟩, fun b n => ?_,
    fun es fs => Value.same_of_perm, Value.same_list_tuple, fun c v => Value.same_category,
    fun entries m => Value.isLabel_mapOf rule,
    fun t => ⟨t.hash_isOk_iff rule, t.hash_eq_error_iff rule⟩, fun _ => rfl, fun ts hts => ?_⟩
  · rw [Value.same_iff rfl rfl, Value.equal_iff_of_integer? (n := b.toInt) rfl, Value.integer?,
      Option.some_inj]
  -- Lists of the same tokens have the same classes.
  have hlength : ∀ us : List (Token F), (∀ t, t ∈ us ↔ t ∈ ts) →
      ∃ kept, Token.collect rule us = .ok kept ∧
        kept.length = {c | ∃ t ∈ ts, c = t.peers}.ncard := by
    intro us hus
    have hus' := fun t ht => hts t ((hus t).mp ht)
    obtain ⟨kept, hcollect, hrepresents, -⟩ := Token.collect_represents rule hus'
    have hclasses := hrepresents.length_eq_ncard fun t ht => (hus' t ht).1
    rw [List.length_map] at hclasses
    simp only [hus] at hclasses
    exact ⟨kept, hcollect, hclasses⟩
  obtain ⟨kept, hcollect, hclasses⟩ := hlength ts fun t => Iff.rfl
  refine ⟨kept, hcollect, hclasses, fun us hus => ?_⟩
  obtain ⟨kept', hcollect', hclasses'⟩ := hlength us hus
  exact ⟨kept', hcollect', hclasses'.trans hclasses.symm⟩

/-- A map with keys of several sorts, in two orders and with numbers for truth values, a label that
holds a list behind a tuple and a named label, and a set of tokens, of which some are equal. Strings
of one length have the same hash here. -/
theorem token_equality_and_hashing_agree_nested :
    let rule : Hashing Ini.StateId Nat :=
      { atom := fun v => match v with
          | .str s => s.length
          | _ => 7
        combine := fun xs => xs.foldl (fun x y => 31 * x + y) 1
        number_eq := by
          intro u v _ _ hu hv _
          cases u <;> cases v <;> simp_all [Value.number?]
        callable_eq := fun _ => rfl }
    let token := fun label : Value Ini.StateId => (⟨['a'], label⟩ : Token Ini.StateId)
    let entries : List (Value Ini.StateId × Value Ini.StateId) :=
      [(.int 1, .str "b"), (.tuple [.str "k", .bool false], .list [.map []]), (.none, .bool true)]
    let entries' : List (Value Ini.StateId × Value Ini.StateId) :=
      [(.none, .int 1), (.bool true, .str "b"), (.tuple [.str "k", .int 0], .list [.map []])]
    let ts := [token (.tuple [.bool true]), token (.str "b"), token (.tuple [.int 1]),
      token (.str "c"), token (.str "b")]
    (∃ m m', Value.mapOf rule entries = .ok m ∧ Value.mapOf rule entries' = .ok m' ∧ m.Equal m') ∧
      (token (.tuple [.bool true])).hash rule = (token (.tuple [.int 1])).hash rule ∧
      (token (.tuple [.int 0, .named (.list []), .map []])).hash rule
        = .error (.unhashable "list") ∧
      ∃ kept, Token.collect rule ts = .ok kept ∧ kept.length = 3 ∧
        {c | ∃ t ∈ ts, c = t.peers}.ncard = 3 := by
  intro rule token entries entries' ts
  obtain ⟨-, htokens, -, -, -, -, hmade, hhash, -, hset⟩ := token_equality_and_hashing_agree rule
  have hts : ∀ t ∈ ts, t.label.isLabel = true ∧ ∃ x, t.hash rule = .ok x := by
    intro t ht
    refine ⟨?_, (hhash t).1.mpr ?_⟩
    · exact (by decide : ∀ t ∈ ts, t.label.isLabel = true) t ht
    · exact (by decide : ∀ t ∈ ts, ∀ v ∈ t.label.reached, v.isCollection = false) t ht
  refine ⟨⟨.map entries, .map entries', rfl, rfl, ?_⟩, (htokens _ _ rfl rfl).2 (by decide),
    ((hhash _).2 _).mpr ⟨.list [], rfl, rfl⟩, ?_⟩
  · have hlabels : ∀ es ∈ [entries, entries'], ∀ e ∈ es,
        e.1.isLabel = true ∧ e.2.isLabel = true := by decide
    have hm := hmade entries _ (hlabels entries (by simp)) rfl
    have hm' := hmade entries' _ (hlabels entries' (by simp)) rfl
    have hsame : (token (.map entries)).same (token (.map entries')) = true := by decide +kernel
    exact ((htokens (token (.map entries)) (token (.map entries')) hm hm').1.mp hsame).2
  · obtain ⟨kept, hcollect, hclasses, -⟩ := hset ts hts
    have hthree : kept.length = 3 := by
      have hlengths : (Token.collect rule ts).toOption.map List.length = some 3 := by
        decide +kernel
      rw [hcollect] at hlengths
      exact Option.some.inj hlengths
    exact ⟨kept, hcollect, hthree, hclasses.symm.trans hthree⟩

end LexChain
