import LexChain.Token
import Mathlib.Data.List.Perm.Basic

/-!
# `LexChain.Proofs.Equality`: when values are equal

Equality of values goes through all that can be put into a label. `Value.Equal` says by rules what
it means: truth values and integers are equal as integers, two maps when their entries can be
brought into an order in which they are equal one by one, and everything else when it is of one sort
and its parts are equal. Callables are equal as their type says.

`Value.same` decides this by a search: for each entry of one map it looks for one in the other, and
it counts them. So that this comes to the same, no two keys of a map may be equal, and there may be
no floating-point numbers, as an undefined one is not even equal to itself. `Value.isLabel` asks for
both, throughout a value, and then the two notions agree:

* `Value.same_iff`: two labels are found equal exactly when they are.
* `Value.Equal.refl`, `Value.Equal.symm` and `Value.Equal.trans` make equality an equivalence, and
  `Token.equivalence_same` says so of what is found of tokens.
* `Value.isLabel_insert`: what a map comes to with one more entry has no equal keys either.

The rules for maps are joined by exchanging an order of entries with a pairing of them
(`List.perm_comp_forall₂`), and `exists_forall₂_perm` finds the order for what the search found.
-/

set_option autoImplicit false

namespace LexChain

variable {F : Type}

/-- If everything on the left has a partner on the right, and no two things share one, then the
right side can be brought into the order of the partners. -/
theorem exists_forall₂_perm {α β : Type} {R : α → β → Prop} {as : List α} {bs : List β}
    (hlength : as.length = bs.length) (hpartner : ∀ a ∈ as, ∃ b ∈ bs, R a b)
    (hapart : as.Pairwise fun a a' => ∀ b, R a b → ¬R a' b) :
    ∃ cs, List.Forall₂ R as cs ∧ cs.Perm bs := by
  induction as generalizing bs with
  | nil => exact ⟨[], .nil, by rw [List.eq_nil_of_length_eq_zero hlength.symm]⟩
  | cons a as ih =>
      obtain ⟨b, hb, hab⟩ := hpartner a List.mem_cons_self
      obtain ⟨bs', hbs⟩ : ∃ bs', bs.Perm (b :: bs') := by
        obtain ⟨before, after, rfl⟩ := List.append_of_mem hb
        exact ⟨before ++ after, List.perm_middle⟩
      obtain ⟨hfirst, hrest⟩ := List.pairwise_cons.mp hapart
      -- The others have their partners among what is left, as this one is taken.
      have hpartner' : ∀ a' ∈ as, ∃ b' ∈ bs', R a' b' := by
        intro a' ha'
        obtain ⟨b', hb', hab'⟩ := hpartner a' (List.mem_cons_of_mem _ ha')
        rcases List.mem_cons.mp (hbs.mem_iff.mp hb') with rfl | hb'
        · exact absurd hab' (hfirst a' ha' b' hab)
        · exact ⟨b', hb', hab'⟩
      have hlength' : as.length = bs'.length := by
        have := hlength.trans hbs.length_eq
        simpa using this
      obtain ⟨cs, hcs, hperm⟩ := ih hlength' hpartner' hrest
      exact ⟨b :: cs, .cons hab hcs, (hperm.cons b).trans hbs.symm⟩

/-- What is paired on the left has a partner on the right. -/
theorem exists_of_forall₂ {α β : Type} {R : α → β → Prop} {as : List α} {bs : List β}
    (h : List.Forall₂ R as bs) : ∀ a ∈ as, ∃ b ∈ bs, R a b := by
  induction h with
  | nil => exact fun _ ha => nomatch ha
  | cons hab _ ih =>
      refine List.forall_mem_cons.mpr ⟨⟨_, List.mem_cons_self, hab⟩, fun a ha => ?_⟩
      obtain ⟨b, hb, hab⟩ := ih a ha
      exact ⟨b, List.mem_cons_of_mem _ hb, hab⟩

namespace Value

/-- The integer that a truth value or an integer counts as. -/
def integer? : Value F → Option Int
  | bool b => some b.toInt
  | int n => some n
  | _ => Option.none

variable [BEq F]

/-! ### The rules -/

mutual

/-- Two values are equal. -/
inductive Equal : Value F → Value F → Prop
  | none : Equal none none
  /-- Truth values and integers are equal as integers. -/
  | integer {u v : Value F} {n : Int} (hu : u.integer? = some n) (hv : v.integer? = some n) :
      Equal u v
  | str (s : String) : Equal (str s) (str s)
  | list {us vs : List (Value F)} (hitems : EqualAll us vs) : Equal (list us) (list vs)
  | tuple {us vs : List (Value F)} (hitems : EqualAll us vs) : Equal (tuple us) (tuple vs)
  /-- The entries of maps are equal one by one, in some order. -/
  | map {es fs gs : List (Value F × Value F)} (hentries : EqualEntries es gs)
      (hperm : gs.Perm fs) : Equal (map es) (map fs)
  | category (c : Category) : Equal (category c) (category c)
  | named {u v : Value F} (hname : Equal u v) : Equal (named u) (named v)
  | token (lexeme : Text) {u v : Value F} (hlabel : Equal u v) :
      Equal (token lexeme u) (token lexeme v)
  | callable {f g : F} (hcallable : (f == g) = true) : Equal (callable f) (callable g)
  /-- States are equal when equal callables are wrapped equally often. -/
  | state {s s' : State F} (hlayers : s.layers = s'.layers)
      (hcallee : (s.callee == s'.callee) = true) : Equal (state s) (state s')

/-- The items of two sequences are equal one by one. -/
inductive EqualAll : List (Value F) → List (Value F) → Prop
  | nil : EqualAll [] []
  | cons {u v : Value F} {us vs : List (Value F)} (hfirst : Equal u v) (hrest : EqualAll us vs) :
      EqualAll (u :: us) (v :: vs)

/-- Keys and values are equal one by one. -/
inductive EqualEntries : List (Value F × Value F) → List (Value F × Value F) → Prop
  | nil : EqualEntries [] []
  | cons {e f : Value F × Value F} {es fs : List (Value F × Value F)} (hkey : Equal e.1 f.1)
      (hvalue : Equal e.2 f.2) (hrest : EqualEntries es fs) : EqualEntries (e :: es) (f :: fs)

end

/-- Two entries have equal keys and equal values. -/
def EqualEntry (e f : Value F × Value F) : Prop := e.1.Equal f.1 ∧ e.2.Equal f.2

/-- Entries that are equal one by one are paired. -/
theorem equalEntries_iff {es fs : List (Value F × Value F)} :
    EqualEntries es fs ↔ List.Forall₂ EqualEntry es fs := by
  constructor
  · -- By induction on the list, as the entries are part of a nested family and have no induction
    -- of their own.
    intro h
    induction es generalizing fs with
    | nil =>
        cases h
        exact .nil
    | cons e es ih =>
        cases h with
        | cons hkey hvalue hrest => exact .cons ⟨hkey, hvalue⟩ (ih hrest)
  · intro h
    induction h with
    | nil => exact .nil
    | cons hentry _ ih => exact .cons hentry.1 hentry.2 ih

/-- If the one side is brought into another order, the other side can be brought into it too. -/
theorem EqualEntries.exchange {es fs gs : List (Value F × Value F)} (hperm : es.Perm fs)
    (hentries : EqualEntries fs gs) : ∃ ds, EqualEntries es ds ∧ ds.Perm gs := by
  obtain ⟨ds, hpaired, hordered⟩ := List.perm_comp_forall₂ hperm (equalEntries_iff.mp hentries)
  exact ⟨ds, equalEntries_iff.mpr hpaired, hordered⟩

/-- What counts as an integer is equal to what counts as the same one. -/
theorem equal_iff_of_integer? {u v : Value F} {n : Int} (hu : u.integer? = some n) :
    u.Equal v ↔ v.integer? = some n := by
  refine ⟨fun huv => ?_, .integer hu⟩
  cases huv with
  | integer hu' hv => rw [hv, ← hu', hu]
  | _ => cases hu

/-! ### Labels -/

mutual

/-- Whether no floating-point number stands anywhere in a value, and no map in it has two equal
keys. -/
def isLabel : Value F → Bool
  | float _ => false
  | list items | tuple items => allLabels items
  | map entries => entryLabels entries
  | named name => isLabel name
  | token _ label => isLabel label
  | _ => true

/-- Whether this holds of all items. -/
def allLabels : List (Value F) → Bool
  | [] => true
  | v :: vs => isLabel v && allLabels vs

/-- Whether it holds of all entries, and no key is found equal to a later one. -/
def entryLabels : List (Value F × Value F) → Bool
  | [] => true
  | (key, value) :: rest =>
    isLabel key && isLabel value && rest.all (fun e => !key.same e.1) && entryLabels rest

end

/-- Keys and values of a map of labels are labels, and no two keys are equal. -/
theorem entryLabels_iff {es : List (Value F × Value F)} :
    entryLabels es = true ↔ (∀ e ∈ es, e.1.isLabel = true ∧ e.2.isLabel = true) ∧
      (es.map Prod.fst).Pairwise fun key key' => key.same key' = false := by
  induction es with
  | nil => simp [entryLabels]
  | cons e es ih =>
      obtain ⟨key, value⟩ := e
      simp only [entryLabels, Bool.and_eq_true, List.all_eq_true, Bool.not_eq_true', ih,
        List.forall_mem_cons, List.map_cons, List.pairwise_cons, List.forall_mem_map]
      tauto

/-- What an entry is put in for stays as it was, or comes to be behind the others. -/
theorem keys_insert (key value : Value F) (es : List (Value F × Value F)) :
    (insert key value es).map Prod.fst
      = if es.any (fun e => e.1.same key) then es.map Prod.fst else es.map Prod.fst ++ [key] := by
  induction es with
  | nil => rfl
  | cons e es ih =>
      unfold insert
      -- Inserting stops at the first equal key and keeps it, so a key is only added where there
      -- is none.
      cases hsame : e.1.same key with
      | true => simp [hsame]
      | false =>
          simp only [Bool.false_eq_true, if_false, List.map_cons, ih, List.any_cons, hsame,
            Bool.false_or]
          split <;> rfl

/-- The entries of a map with one more have keys and values of the same sort. -/
theorem forall_mem_insert {P Q : Value F → Prop} {key value : Value F}
    {es : List (Value F × Value F)} (hkey : P key) (hvalue : Q value)
    (hes : ∀ e ∈ es, P e.1 ∧ Q e.2) : ∀ e ∈ insert key value es, P e.1 ∧ Q e.2 := by
  induction es with
  | nil => exact List.forall_mem_singleton.mpr ⟨hkey, hvalue⟩
  | cons e es ih =>
      obtain ⟨hfirst, hrest⟩ := List.forall_mem_cons.mp hes
      unfold insert
      split
      · exact List.forall_mem_cons.mpr ⟨⟨hfirst.1, hvalue⟩, hrest⟩
      · exact List.forall_mem_cons.mpr ⟨hfirst, ih hrest⟩

/-- **A map of labels stays one** with one more entry. A key that is equal to one of its keys is
not put in again. -/
theorem isLabel_insert {key value : Value F} {es : List (Value F × Value F)}
    (hkey : key.isLabel = true) (hvalue : value.isLabel = true)
    (hes : (map es).isLabel = true) : (map (insert key value es)).isLabel = true := by
  obtain ⟨hentries, hapart⟩ := entryLabels_iff.mp hes
  have hall := forall_mem_insert (P := fun v => v.isLabel = true) (Q := fun v => v.isLabel = true)
    hkey hvalue hentries
  refine entryLabels_iff.mpr ⟨hall, ?_⟩
  rw [keys_insert]
  -- The keys stay as they are, or the new one is apart from them all.
  split
  · exact hapart
  · next hnone =>
      refine List.pairwise_append.mpr ⟨hapart, List.pairwise_singleton .., ?_⟩
      simpa [List.forall_mem_map] using hnone

/-! ### Equality is an equivalence -/

mutual

/-- A label is equal to itself. -/
theorem Equal.refl [ReflBEq F] : ∀ {v : Value F}, v.isLabel = true → v.Equal v
  | none, _ => .none
  | bool _, _ => .integer rfl rfl
  | int _, _ => .integer rfl rfl
  | float _, hv => by cases hv
  | str s, _ => .str s
  | list _, hv => .list (EqualAll.refl hv)
  | tuple _, hv => .tuple (EqualAll.refl hv)
  | map _, hv => .map (EqualEntries.refl hv) (.refl _)
  | category c, _ => .category c
  | named _, hv => .named (Equal.refl hv)
  | token lexeme _, hv => .token lexeme (Equal.refl hv)
  | callable _, _ => .callable BEq.rfl
  | state _, _ => .state rfl BEq.rfl

/-- The items of a list of labels are equal to themselves. -/
theorem EqualAll.refl [ReflBEq F] :
    ∀ {vs : List (Value F)}, allLabels vs = true → EqualAll vs vs
  | [], _ => .nil
  | _ :: _, hvs =>
    have hboth := Bool.and_eq_true_iff.mp hvs
    .cons (Equal.refl hboth.1) (EqualAll.refl hboth.2)

/-- The entries of a map of labels are equal to themselves. -/
theorem EqualEntries.refl [ReflBEq F] :
    ∀ {es : List (Value F × Value F)}, entryLabels es = true → EqualEntries es es
  | [], _ => .nil
  | (_, _) :: _, hes =>
    have hboth := Bool.and_eq_true_iff.mp hes
    have hentry := Bool.and_eq_true_iff.mp (Bool.and_eq_true_iff.mp hboth.1).1
    .cons (Equal.refl hentry.1) (Equal.refl hentry.2) (EqualEntries.refl hboth.2)

end

mutual

/-- Equality goes both ways. Of two maps it is the other one whose entries are brought into order
then. -/
theorem Equal.symm [PartialEquivBEq F] : ∀ {u v : Value F}, u.Equal v → v.Equal u
  | _, _, .none => .none
  | _, _, .integer hu hv => .integer hv hu
  | _, _, .str s => .str s
  | _, _, .list hitems => .list hitems.symm
  | _, _, .tuple hitems => .tuple hitems.symm
  | _, _, .map hentries hperm =>
    -- The pairing and the order change places: pair first, then reorder.
    have ⟨_, hpaired, hordered⟩ := EqualEntries.exchange hperm.symm hentries.symm
    .map hpaired hordered
  | _, _, .category c => .category c
  | _, _, .named hname => .named hname.symm
  | _, _, .token lexeme hlabel => .token lexeme hlabel.symm
  | _, _, .callable hcallable => .callable (BEq.symm hcallable)
  | _, _, .state hlayers hcallee => .state hlayers.symm (BEq.symm hcallee)

/-- Equality of items goes both ways. -/
theorem EqualAll.symm [PartialEquivBEq F] :
    ∀ {us vs : List (Value F)}, EqualAll us vs → EqualAll vs us
  | _, _, .nil => .nil
  | _, _, .cons hfirst hrest => .cons hfirst.symm hrest.symm

/-- Equality of entries goes both ways. -/
theorem EqualEntries.symm [PartialEquivBEq F] :
    ∀ {es fs : List (Value F × Value F)}, EqualEntries es fs → EqualEntries fs es
  | _, _, .nil => .nil
  | _, _, .cons hkey hvalue hrest => .cons hkey.symm hvalue.symm hrest.symm

end

mutual

/-- Values that are equal to a third one are equal. The entries of three maps are first paired in
the order of the second one, and then brought into that of the third one. -/
theorem Equal.trans [PartialEquivBEq F] :
    ∀ {u v w : Value F}, u.Equal v → v.Equal w → u.Equal w
  | _, _, _, .integer hu hv, hvw => .integer hu ((equal_iff_of_integer? hv).mp hvw)
  | _, _, _, .none, hvw => hvw
  | _, _, _, .str _, hvw => hvw
  | _, _, _, .category _, hvw => hvw
  | _, _, _, .list hitems, .list hitems' => .list (hitems.trans hitems')
  | _, _, _, .tuple hitems, .tuple hitems' => .tuple (hitems.trans hitems')
  | _, _, _, .map hentries hperm, .map hentries' hperm' =>
    -- The order of the first map is taken over to the second before the pairings are composed.
    have ⟨_, hpaired, hordered⟩ := EqualEntries.exchange hperm hentries'
    .map (hentries.trans hpaired) (hordered.trans hperm')
  | _, _, _, .named hname, .named hname' => .named (hname.trans hname')
  | _, _, _, .token lexeme hlabel, .token _ hlabel' => .token lexeme (hlabel.trans hlabel')
  | _, _, _, .callable hcallable, .callable hcallable' =>
    .callable (BEq.trans hcallable hcallable')
  | _, _, _, .state hlayers hcallee, .state hlayers' hcallee' =>
    .state (hlayers.trans hlayers') (BEq.trans hcallee hcallee')

/-- What is equal to equal items is equal. -/
theorem EqualAll.trans [PartialEquivBEq F] :
    ∀ {us vs ws : List (Value F)}, EqualAll us vs → EqualAll vs ws → EqualAll us ws
  | _, _, _, .nil, .nil => .nil
  | _, _, _, .cons hfirst hrest, .cons hfirst' hrest' =>
    .cons (hfirst.trans hfirst') (hrest.trans hrest')

/-- What is equal to equal entries is equal. -/
theorem EqualEntries.trans [PartialEquivBEq F] :
    ∀ {es fs gs : List (Value F × Value F)}, EqualEntries es fs → EqualEntries fs gs →
      EqualEntries es gs
  | _, _, _, .nil, .nil => .nil
  | _, _, _, .cons hkey hvalue hrest, .cons hkey' hvalue' hrest' =>
    .cons (hkey.trans hkey') (hvalue.trans hvalue') (hrest.trans hrest')

end

/-! ### What is found equal -/

/-- What counts as an integer is found equal to what counts as the same one. -/
theorem same_of_integer? {u v : Value F} {n : Int} (hu : u.integer? = some n)
    (hv : v.integer? = some n) : u.same v = true := by
  cases u <;> cases v <;>
    simp_all [integer?, same, isNumber, number?, Number.same_ofInt]

/-- A label counts as the number that an integer is if it counts as that integer. -/
theorem integer?_of_isNumber {v : Value F} {n : Int} (hv : v.isLabel = true)
    (hnumber : v.isNumber (.ofInt n) = true) : v.integer? = some n := by
  cases v <;> simp_all [integer?, isNumber, number?, Number.same_ofInt, isLabel]

/-- Each entry of a map is looked for in the other one. -/
theorem sameEntries_iff {es fs : List (Value F × Value F)} :
    sameEntries es fs = true ↔
      ∀ e ∈ es, ∃ f ∈ fs, e.1.same f.1 = true ∧ e.2.same f.2 = true := by
  induction es with
  | nil => simp [sameEntries]
  | cons e es ih =>
      obtain ⟨key, value⟩ := e
      rw [sameEntries, Bool.and_eq_true, ih, List.forall_mem_cons, List.any_eq_true]
      simp only [Bool.and_eq_true]

mutual

/-- **Equal values are found equal.** -/
theorem Equal.same_eq : ∀ {u v : Value F}, u.Equal v → u.same v = true
  | _, _, .none => rfl
  | _, _, .integer hu hv => same_of_integer? hu hv
  | _, _, .str _ => by simp [same]
  | _, _, .list hitems => by
      rw [same]
      exact hitems.sameAll_eq
  | _, _, .tuple hitems => by
      rw [same]
      exact hitems.sameAll_eq
  | _, _, .map hentries hperm => by
      -- The comparison of maps asks for as many entries and, for each, an equal one. Order
      -- plays no part in it.
      have hlength := (equalEntries_iff.mp hentries).length_eq.trans hperm.length_eq
      rw [same, Bool.and_eq_true, beq_iff_eq, sameEntries_iff]
      refine ⟨hlength, fun e he => ?_⟩
      obtain ⟨f, hf, hef⟩ := exists_of_forall₂ hentries.forall₂_same e he
      exact ⟨f, hperm.mem_iff.mp hf, hef⟩
  | _, _, .category _ => by simp [same]
  | _, _, .named hname => by
      rw [same]
      exact hname.same_eq
  | _, _, .token _ hlabel => by
      rw [same, Bool.and_eq_true]
      exact ⟨beq_self_eq_true _, hlabel.same_eq⟩
  | _, _, .callable hcallable => by
      rw [same]
      exact hcallable
  | _, _, .state hlayers hcallee => by
      rw [same]
      exact State.same_iff.mpr ⟨hlayers, hcallee⟩

/-- Items that are equal one by one are found equal. -/
theorem EqualAll.sameAll_eq : ∀ {us vs : List (Value F)}, EqualAll us vs → sameAll us vs = true
  | _, _, .nil => rfl
  | _, _, .cons hfirst hrest => by
      rw [sameAll, Bool.and_eq_true]
      exact ⟨hfirst.same_eq, hrest.sameAll_eq⟩

/-- Entries that are equal one by one are found equal. -/
theorem EqualEntries.forall₂_same : ∀ {es fs : List (Value F × Value F)}, EqualEntries es fs →
    List.Forall₂ (fun e f => e.1.same f.1 = true ∧ e.2.same f.2 = true) es fs
  | _, _, .nil => .nil
  | _, _, .cons hkey hvalue hrest => .cons ⟨hkey.same_eq, hvalue.same_eq⟩ hrest.forall₂_same

end

/-- No entry can be equal to two entries of a map of labels. -/
theorem entryLabels_apart [PartialEquivBEq F] {es : List (Value F × Value F)}
    (hes : entryLabels es = true) :
    es.Pairwise fun e e' => ∀ f, EqualEntry e f → ¬EqualEntry e' f := by
  refine (List.pairwise_map.mp (entryLabels_iff.mp hes).2).imp ?_
  rintro e e' hapart f ⟨hkey, -⟩ ⟨hkey', -⟩
  rw [(hkey.trans hkey'.symm).same_eq] at hapart
  cases hapart

mutual

/-- **Labels that are found equal are equal.** By recursion on the first one. What is found equal is
of the same sort, but for truth values and integers. -/
theorem equal_of_same [PartialEquivBEq F] : ∀ {u v : Value F}, u.isLabel = true →
    v.isLabel = true → u.same v = true → u.Equal v
  | none, v, _, _, h => by
      cases v with
      | none => exact .none
      | _ => simp [same] at h
  | bool b, v, _, hv, h => .integer rfl (integer?_of_isNumber hv (by simpa [same] using h))
  | int n, v, _, hv, h => .integer rfl (integer?_of_isNumber hv (by simpa [same] using h))
  | float _, _, hu, _, _ => by cases hu
  | str s, v, _, _, h => by
      cases v with
      | str s' =>
          obtain rfl : s = s' := by simpa [same] using h
          exact .str s
      | _ => simp [same] at h
  | list us, v, hu, hv, h => by
      cases v with
      | list vs => exact .list (equalAll_of_sameAll hu hv (by simpa [same] using h))
      | _ => simp [same] at h
  | tuple us, v, hu, hv, h => by
      cases v with
      | tuple vs => exact .tuple (equalAll_of_sameAll hu hv (by simpa [same] using h))
      | _ => simp [same] at h
  | map es, v, hu, hv, h => by
      cases v with
      | map fs =>
          rw [same, Bool.and_eq_true, beq_iff_eq] at h
          -- Each entry has an equal one, there are as many, and no two keys of a label are
          -- equal. So the partners are a reordering of the other map.
          have hpartner := exists_equalEntry_of_same hu (entryLabels_iff.mp hv).1
            (sameEntries_iff.mp h.2)
          obtain ⟨gs, hentries, hperm⟩ :=
            exists_forall₂_perm h.1 hpartner (entryLabels_apart hu)
          exact .map (equalEntries_iff.mpr hentries) hperm
      | _ => simp [same] at h
  | category c, v, _, _, h => by
      cases v with
      | category c' =>
          obtain rfl : c = c' := by simpa [same] using h
          exact .category c
      | _ => simp [same] at h
  | named u, v, hu, hv, h => by
      cases v with
      | named v => exact .named (equal_of_same hu hv (by simpa [same] using h))
      | _ => simp [same] at h
  | token lexeme u, v, hu, hv, h => by
      cases v with
      | token lexeme' v =>
          rw [same, Bool.and_eq_true, beq_iff_eq] at h
          obtain ⟨rfl, hlabel⟩ := h
          exact .token lexeme (equal_of_same hu hv hlabel)
      | _ => simp [same] at h
  | callable f, v, _, _, h => by
      cases v with
      | callable g => exact .callable (by simpa [same] using h)
      | _ => simp [same] at h
  | state s, v, _, _, h => by
      cases v with
      | state s' =>
          rw [same, State.same_iff] at h
          exact .state h.1 h.2
      | _ => simp [same] at h

/-- Items that are found equal are equal, if they are labels. -/
theorem equalAll_of_sameAll [PartialEquivBEq F] : ∀ {us vs : List (Value F)},
    allLabels us = true → allLabels vs = true → sameAll us vs = true → EqualAll us vs
  | [], vs, _, _, h => by
      cases vs with
      | nil => exact .nil
      | cons v vs => simp [sameAll] at h
  | u :: us, vs, hu, hv, h => by
      cases vs with
      | nil => simp [sameAll] at h
      | cons v vs =>
          rw [sameAll, Bool.and_eq_true] at h
          rw [allLabels, Bool.and_eq_true] at hu hv
          exact .cons (equal_of_same hu.1 hv.1 h.1) (equalAll_of_sameAll hu.2 hv.2 h.2)

/-- An entry that is found among others has an equal one among them, if all are of labels. -/
theorem exists_equalEntry_of_same [PartialEquivBEq F] :
    ∀ {es fs : List (Value F × Value F)}, entryLabels es = true →
      (∀ f ∈ fs, f.1.isLabel = true ∧ f.2.isLabel = true) →
      (∀ e ∈ es, ∃ f ∈ fs, e.1.same f.1 = true ∧ e.2.same f.2 = true) →
      ∀ e ∈ es, ∃ f ∈ fs, EqualEntry e f
  | [], _, _, _, _, _, he => nomatch he
  | (key, value) :: es, fs, hes, hfs, h, e, he => by
      rw [entryLabels, Bool.and_eq_true, Bool.and_eq_true, Bool.and_eq_true] at hes
      -- By the recursion of the entries, as the equality of their values is known for smaller
      -- values only.
      obtain ⟨⟨⟨hkey, hvalue⟩, -⟩, hrest⟩ := hes
      obtain ⟨hfirst, hothers⟩ := List.forall_mem_cons.mp h
      rcases List.mem_cons.mp he with rfl | he
      · obtain ⟨f, hf, hsame, hsame'⟩ := hfirst
        exact ⟨f, hf, equal_of_same hkey (hfs f hf).1 hsame,
          equal_of_same hvalue (hfs f hf).2 hsame'⟩
      · exact exists_equalEntry_of_same hrest hfs hothers e he

end

/-- **Labels are found equal exactly when they are.** -/
theorem same_iff [PartialEquivBEq F] {u v : Value F} (hu : u.isLabel = true)
    (hv : v.isLabel = true) : u.same v = true ↔ u.Equal v :=
  ⟨equal_of_same hu hv, Equal.same_eq⟩

/-- In whatever order the entries of a map stand, it is the same map. -/
theorem same_of_perm [ReflBEq F] {es fs : List (Value F × Value F)}
    (hes : (map es).isLabel = true) (hperm : es.Perm fs) : (map es).same (map fs) = true :=
  (Equal.map (EqualEntries.refl hes) hperm).same_eq

/-- A list is no tuple. -/
theorem same_list_tuple (us vs : List (Value F)) : (list us).same (tuple vs) = false := by
  simp [same]

/-- A category is neither a number nor a string. -/
theorem same_category {c : Category} {v : Value F} (hv : v.number? ≠ Option.none ∨ ∃ s, v = str s) :
    (category c).same v = false := by
  cases v <;> simp_all [same, number?]

end Value

namespace Token

variable [BEq F] {t u : Token F}

/-- Tokens with labels are found equal when their lexemes and their labels are equal. -/
theorem same_iff [PartialEquivBEq F] (ht : t.label.isLabel = true) (hu : u.label.isLabel = true) :
    t.same u = true ↔ t.lexeme = u.lexeme ∧ t.label.Equal u.label := by
  rw [same, Bool.and_eq_true, beq_iff_eq, Value.same_iff ht hu]

/-- **What is found equal of tokens is an equivalence**, on those with labels. -/
theorem equivalence_same [EquivBEq F] :
    Equivalence fun t u : {t : Token F // t.label.isLabel = true} => t.1.same u.1 = true where
  refl t := (same_iff t.2 t.2).mpr ⟨rfl, .refl t.2⟩
  symm {t u} h := by
    obtain ⟨hlexeme, hlabel⟩ := (same_iff t.2 u.2).mp h
    exact (same_iff u.2 t.2).mpr ⟨hlexeme.symm, hlabel.symm⟩
  trans {t u v} h h' := by
    obtain ⟨hlexeme, hlabel⟩ := (same_iff t.2 u.2).mp h
    obtain ⟨hlexeme', hlabel'⟩ := (same_iff u.2 v.2).mp h'
    exact (same_iff t.2 v.2).mpr ⟨hlexeme.trans hlexeme', hlabel.trans hlabel'⟩

end Token

end LexChain
