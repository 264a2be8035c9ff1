import LexChain.Ini.States
import LexChain.Proofs.Fuel
import LexChain.Proofs.Likeness

/-!
# `LexChain.Proofs.Sequel`: one chain after another

Two chains can be put in a row in two ways: drive the first one and then the second, or
drive a chain that goes through the first one and, where that would end, on into the
second. `Machine.Sequel` says when a chain is of the latter kind: each state `f` of the
first chain has a counterpart `seq f` that does the same and hands back what
`Value.sequel` makes of the value.

`runs_compose` says that it makes no difference, for any two chains and any text. A `relay`
stands between the two ways. It follows the first chain and drives the second one when
that stops, with the fuel that is left. So it needs about as much fuel as the two runs
(`extends_relay`, `relay_extends`), and it goes alike with the one chain link by link
(`simulates_relay`).
-/

set_option autoImplicit false

namespace LexChain

variable {F M α : Type}

/-! ### Sequels -/

/-- The state of a counterpart, which is wrapped as often. -/
def State.sequel (seq : F → F) : State F → State F
  | of f => of (seq f)
  | wrap s => wrap (s.sequel seq)

/-- What the counterpart of a state hands back where the state hands back a value: a
counterpart for a state, and `b` for the end of the chain. -/
def Value.sequel (v : Value F) (seq : F → F) (b : Value F) : Value F :=
  match v with
  | none => b
  | callable f => callable (seq f)
  | state s => state (s.sequel seq)
  | v => v

/-- The callables in `own` are those of a chain, and `seq` takes each of them to its
counterpart in the chain that goes on with `b`. -/
structure Machine.Sequel [Callable F] (machine : Machine F M) (own : F → Prop) (seq : F → F)
    (b : Value F) : Prop where
  /-- A call of an own callable hands back no state but an own one. -/
  stays : ∀ {fuel : Nat} {f : F} {h : Handle} {w w' : World F M} {v : Value F}, own f →
    machine.enter fuel f h w = (some (.ok v), w') → ∀ g, v.callee? = some g → own g
  /-- A counterpart goes by the same name. -/
  name_eq : ∀ f, own f → Callable.name (seq f) = Callable.name f
  /-- A counterpart does what the callable does, and goes on at the end of the chain. -/
  does : ∀ f h, own f → machine (seq f) h = do return (← machine f h).sequel seq b

/-- A callable inside a number of wrappers, which each make a counterpart of it. -/
structure Wrapped (G : Type) where
  callee : G
  times : Nat

namespace Wrapped

variable {G : Type}

/-- A wrapper goes by the name of what it wraps. -/
instance [Callable G] : Callable (Wrapped G) := ⟨fun f => Callable.name f.callee⟩

/-- One more wrapper. -/
def wrap (f : Wrapped G) : Wrapped G := ⟨f.callee, f.times + 1⟩

/-- What a wrapped callable does, given what the callables inside do. -/
def call (base : G → Handle → Program (Wrapped G) M (Value (Wrapped G))) (b : Value (Wrapped G))
    (g : G) (h : Handle) : Nat → Program (Wrapped G) M (Value (Wrapped G))
  | 0 => base g h
  | n + 1 => do return (← call base b g h n).sequel wrap b

/-- The machine of the wrapped callables. -/
def machine (base : G → Handle → Program (Wrapped G) M (Value (Wrapped G)))
    (b : Value (Wrapped G)) : Machine (Wrapped G) M :=
  fun f h => call base b f.callee h f.times

/-- Whatever callables do, wrappers make counterparts of them. -/
theorem sequel [Callable G] (base : G → Handle → Program (Wrapped G) M (Value (Wrapped G)))
    (b : Value (Wrapped G)) : (machine base b).Sequel (fun _ => True) wrap b where
  stays _ _ _ _ := trivial
  name_eq _ _ := rfl
  does _ _ _ := rfl

end Wrapped

/-- Two worlds after the same course, up to counterparts: the same tokenizers were created
and stand as they stand, the settings, the memory and the lists handed out are the same, and
so were the answers to all questions. The same callables were entered with the same cursors, or
their counterparts. -/
structure World.SameCourse (own : F → Prop) (seq : F → F) (w v : World F M) : Prop where
  next_eq : v.shelf.next = w.shelf.next
  get_eq : ∀ h, v.get h = w.get h
  settings_eq : v.settings = w.settings
  memory_eq : v.memory = w.memory
  held_eq : ∀ k, v.held k = w.held k
  answers_eq : v.answers = w.answers
  entries : List.Forall₂
    (fun e e' => e'.2 = e.2 ∧ (e'.1 = e.1 ∨ own e.1 ∧ e'.1 = seq e.1)) w.entries v.entries

/-- A value that is valid as a state is so whatever handed it over. -/
theorem Value.asState_of_ok {v : Value F} {source : String} {s : Option (State F)}
    (hv : v.asState source = .ok s) (source' : String) : v.asState source' = .ok s := by
  cases v <;> first | exact hv | cases hv

/-- The states of values are taken to the states of their counterparts. -/
theorem Value.asState_sequel {b : Value F} {source : String} {start : Option (State F)}
    (hb : b.asState source = .ok start) (seq : F → F) (v : Value F) :
    (v.sequel seq b).asState source
      = (v.asState source).map fun s => (s.map (State.sequel seq)).or start := by
  cases v with
  | none => exact hb
  | _ => rfl

/-- A value that stands for a state comes down to the callable of that state. -/
theorem Value.callee?_of_asState {v : Value F} {source : String} {s : State F}
    (hv : v.asState source = .ok (some s)) : v.callee? = some s.callee := by
  cases v <;> cases hv <;> rfl

/-- A call of a counterpart's state goes through to the counterpart. -/
theorem State.callee_sequel (seq : F → F) (s : State F) :
    (s.sequel seq).callee = seq s.callee := by
  induction s with
  | of f => rfl
  | wrap s ih => exact ih

/-- The counterpart of a state goes by the name of the state if that of its callable goes by the
name of the callable. -/
theorem State.name_sequel [Callable F] {seq : F → F} {s : State F}
    (hname : Callable.name (seq s.callee) = Callable.name s.callee) :
    (s.sequel seq).name = s.name := by
  induction s with
  | of f => exact hname
  | wrap s ih => exact congrArg State.enclose (ih hname)

/-! ### Relays -/

namespace Chain

/-- A chain at a state, or at its end, with another execution in place of its end. -/
def passOn (h : Handle) (rest : Execution F M α) (onward : State F → Execution F M α) :
    Option (State F) → Execution F M α
  | none => rest
  | some s => fun w => if (w.get h).hasMore then onward s w else rest w

/-- With extensions of its parts the whole is extended. -/
theorem extends_passOn {h : Handle} {rest rest' : Execution F M α}
    (hrest : rest.Extends rest') {onward onward' : State F → Execution F M α}
    (honward : ∀ s, (onward s).Extends (onward' s)) (s : Option (State F)) :
    (passOn h rest onward s).Extends (passOn h rest' onward' s) := by
  cases s with
  | none => exact hrest
  | some s => exact .ite (fun w => (w.get h).hasMore) (honward s) hrest

/-- What comes after a chain is done where it stops, or where it goes on to. -/
theorem proceed_bind (settings : Settings F) (h : Handle)
    (onward : State F → Execution F M (List (Token F)))
    (k : List (Token F) → Execution F M α) (s : Option (State F)) :
    (proceed settings h onward s).bind k
      = passOn h ((stop settings h).bind k) (fun s => (onward s).bind k) s := by
  cases s with
  | none => rfl
  | some s =>
      funext w
      cases hmore : (w.get h).hasMore <;> simp [proceed, passOn, Execution.bind, hmore]

variable [Callable F]

/-- The end of a first chain, where the one that starts with `b` is driven. -/
def handOn (enter : F → Handle → Execution F M (Value F)) (settings : Settings F) (h : Handle)
    (b : Value F) (fuel : Nat) : Execution F M (List (Token F)) :=
  (stop settings h).bind fun _ => run enter fuel h b

/-- A chain followed from a state on, and at its end the chain that starts with `b`, for
at most as many calls in all as there is fuel. -/
def relay (enter : F → Handle → Execution F M (Value F)) (settings : Settings F) (h : Handle)
    (b : Value F) : Nat → Option (State F) → Execution F M (List (Token F))
  | 0 => passOn h (handOn enter settings h b 0) fun _ w => (none, w)
  | fuel + 1 => passOn h (handOn enter settings h b (fuel + 1)) fun s =>
    (link enter settings h s).bind (relay enter settings h b fuel)

variable (enter : F → Handle → Execution F M (Value F)) (settings : Settings F) (h : Handle)
  (b : Value F)

/-- More calls for the second chain change nothing. -/
theorem extends_handOn {n m : Nat} (hnm : n ≤ m) :
    (handOn enter settings h b n).Extends (handOn enter settings h b m) :=
  (Execution.Extends.refl _).bind fun _ => extends_run (fun _ _ => .refl _) hnm h b

/-- Two runs in a row do what a relay does, if each has as much fuel. -/
theorem relay_extends {n m : Nat} (hnm : n ≤ m) (s : Option (State F)) :
    (relay enter settings h b n s).Extends
      ((follow enter settings h n s).bind fun _ => run enter m h b) := by
  have hend : (handOn enter settings h b n).Extends (handOn enter settings h b m) :=
    extends_handOn enter settings h b hnm
  -- Induction on the links still allowed. The relay hands on within what is left of its own
  -- bound, so the second run gets at least as much in the composition.
  induction n generalizing s with
  | zero =>
      show Execution.Extends _ ((proceed settings h (fun _ w => (none, w)) s).bind _)
      rw [proceed_bind]
      exact extends_passOn hend (fun _ => .refl _) s
  | succ n ih =>
      show Execution.Extends _ ((proceed settings h
        (fun s => (link enter settings h s).bind (follow enter settings h n)) s).bind _)
      rw [proceed_bind]
      refine extends_passOn hend (fun s => ?_) s
      rw [Execution.bind_assoc]
      exact (Execution.Extends.refl _).bind fun t =>
        ih (by omega) t (extends_handOn enter settings h b (by omega))

/-- A relay does what two runs in a row do, if it has as much fuel as both. -/
theorem extends_relay (n m : Nat) (s : Option (State F)) :
    ((follow enter settings h n s).bind fun _ => run enter m h b).Extends
      (relay enter settings h b (n + m) s) := by
  induction n generalizing s with
  -- The first chain has no link left. It may still end here, and then the second starts with
  -- all of its own bound.
  | zero =>
      show Execution.Extends ((proceed settings h (fun _ w => (none, w)) s).bind _) _
      rw [proceed_bind, Nat.zero_add]
      cases m with
      | zero => exact extends_passOn (.refl _) (fun _ => .refl _) s
      | succ m =>
          exact extends_passOn (.refl _) (fun _ => Execution.extends_of_none (fun _ => rfl) _) s
  | succ n ih =>
      show Execution.Extends ((proceed settings h
        (fun s => (link enter settings h s).bind (follow enter settings h n)) s).bind _) _
      rw [proceed_bind, Nat.add_right_comm]
      refine extends_passOn (extends_handOn enter settings h b (by omega)) (fun s => ?_) s
      rw [Execution.bind_assoc]
      exact (Execution.Extends.refl _).bind ih

/-- A relay from a value on, which is checked as at the start of a run. -/
def relayFrom (fuel : Nat) (a : Value F) : Execution F M (List (Token F)) := fun w =>
  match a.asState initialName with
  | .error e => (some (.error e), w)
  | .ok s => relay enter w.settings h b fuel s w

/-- What a relay does, with fuel enough, the two runs do one after the other. -/
theorem relayFrom_extends {n m : Nat} (hnm : n ≤ m) (a : Value F) :
    (relayFrom enter h b n a).Extends ((run enter n h a).bind fun _ => run enter m h b) := by
  intro w
  unfold relayFrom Execution.bind run
  cases a.asState initialName with
  | error e => exact fun _ => rfl
  | ok s => exact relay_extends enter w.settings h b hnm s w

/-- What the two runs do, one after the other, the relay does with the fuel of both. -/
theorem extends_relayFrom (n m : Nat) (a : Value F) :
    ((run enter n h a).bind fun _ => run enter m h b).Extends (relayFrom enter h b (n + m) a) := by
  intro w
  unfold relayFrom Execution.bind
  simp only [run.eq_def enter n h a]
  cases a.asState initialName with
  | error e => exact fun _ => rfl
  | ok s => exact extends_relay enter w.settings h b n m s w

end Chain

/-! ### Relays and sequels -/

/-- Worlds are alike that differ in what was entered only: counterparts in one of them. -/
def Likeness.counterparts (own : F → Prop) (seq : F → F) : Likeness F :=
  .strict (fun _ => Eq) (fun _ _ => Eq) Eq fun f g => g = f ∨ own f ∧ g = seq f

namespace Likeness

variable {own : F → Prop} {seq : F → F}

/-- Steps that look at no callable are like themselves. -/
theorem counterparts_steps (own : F → Prop) (seq : F → F) {p : Program F M α} (hstep : p.IsStep) :
    (counterparts own seq).Steps Eq p p := by
  cases p with
  | create source => exact .create source
  | ask h q => exact .ask h q
  | tell h c =>
      -- Counterparts are told apart by callables only, so tokenizers are equal and stay so.
      refine .tell ?_
      rintro t _ rfl
      exact ⟨.refl (fun _ => rfl) (fun _ => rfl) _, rfl⟩
  | run h v => exact .run h rfl
  | call f h => exact .call f h
  | hold h => exact .hold h
  | held k => exact .held k
  | clear k => exact .clear k
  | settings => exact .settings
  | configure s => exact .configure s
  | memory => exact .memory
  | remember m => exact .remember m
  | _ => exact hstep.elim

/-- All programs are alike with themselves under counterparts. -/
theorem counterparts_refl (own : F → Prop) (seq : F → F) (p : Program F M α) :
    (counterparts own seq).Programs Eq p p :=
  p.each_true.corresponds (fun _ _ => Iff.rfl) (fun _ => rfl) fun hstep _ =>
    counterparts_steps own seq hstep

/-- Alike worlds with a common past have come by the same course. -/
theorem Worlds.sameCourse {w x x' : World F M} (hxx' : (counterparts own seq).Worlds x x')
    (halong : (counterparts own seq).Alongside w w x x') : x.SameCourse own seq x' := by
  obtain ⟨es, es', hes, hes', hevents⟩ := halong
  refine ⟨hxx'.next_eq, fun h => (hxx'.get h).symm, hxx'.settings_eq, hxx'.memory_eq,
    fun k => (hxx'.held k).symm, ?_, ?_⟩
  · -- Answers and entries are read off the events side by side: a question is beside the same
    -- question and an entry beside the entry of the counterpart.
    have hanswers : List.Forall₂ Eq ((deeds es).filterMap Event.answer?)
        ((deeds es').filterMap Event.answer?) := by
      refine List.rel_filterMap ?_ hevents
      intro e e' he
      cases he with
      | @asked h q t u ht ha =>
          obtain rfl : t = u := ht
          exact .some rfl
      | _ => exact .none
    rw [List.forall₂_eq_eq_eq, filterMap_deeds (fun _ _ => rfl),
      filterMap_deeds (fun _ _ => rfl)] at hanswers
    simp only [World.answers, hes, hes', List.filterMap_append, hanswers]
  · have hentries : List.Forall₂
        (fun e e' => e'.2 = e.2 ∧ (e'.1 = e.1 ∨ own e.1 ∧ e'.1 = seq e.1))
        ((deeds es).filterMap Event.entry?) ((deeds es').filterMap Event.entry?) := by
      refine List.rel_filterMap ?_ hevents
      intro e e' he
      cases he with
      | @entered f g h t u hf ht =>
          obtain rfl : t = u := ht
          exact .some ⟨rfl, hf⟩
      | _ => exact .none
    rw [filterMap_deeds (fun _ _ => rfl), filterMap_deeds (fun _ _ => rfl)] at hentries
    simp only [World.entries, hes, hes', List.filterMap_append]
    refine List.rel_append ?_ hentries
    exact List.forall₂_same.mpr fun e _ => ⟨rfl, .inl rfl⟩

open Chain

/-- A chain that hands on goes like one that goes on, if the rest of it does. -/
theorem simulates_passOn (settings' : Settings F) (h : Handle)
    {start : Option (State F)} {rest : Execution F M (List (Token F))}
    {onward onward' : State F → Execution F M (List (Token F))}
    (hrest : (counterparts own seq).Simulates Eq rest (proceed settings' h onward' start))
    (honward : ∀ s, own s.callee →
      (counterparts own seq).Simulates Eq (onward s) (onward' (s.sequel seq)))
    {s : Option (State F)} (hs : ∀ s', s = some s' → own s'.callee) :
    (counterparts own seq).Simulates Eq (passOn h rest onward s)
      (proceed settings' h onward' ((s.map (State.sequel seq)).or start)) := by
  cases s with
  | none => exact hrest
  | some s =>
      refine simulates_iff.mpr fun w v hwv => ?_
      have hsame : (v.get h).hasMore = (w.get h).hasMore := by rw [← hwv.get h]
      cases hmore : (w.get h).hasMore with
      | true =>
          rw [hmore] at hsame
          simp only [passOn, hmore, Option.map_some, Option.some_or, proceed, hsame, if_true]
          exact simulates_iff.mp (honward s (hs s rfl)) hwv
      | false =>
          -- With no character left the one chain stops wherever it is.
          have hstop : proceed settings' h onward' start v = stop settings' h v := by
            cases start with
            | none => rfl
            | some s => simp [proceed, hsame, hmore]
          have hends := simulates_iff.mp hrest hwv
          rw [hstop] at hends
          simpa [passOn, hmore, proceed, hsame] using hends

variable [Callable F]

/-- Equal tokenizers give equal answers, so the laws hold. -/
theorem counterparts_lawful : (counterparts own seq).Lawful := by
  refine Lawful.strict (fun _ => .inl rfl) rfl id ?_ ?_
  · rintro h t _ rfl
    rfl
  · rintro h t _ q rfl
    exact .refl (fun _ => rfl) (fun _ => rfl) _

/-- A call goes like itself. -/
theorem simulates_enter_self (own : F → Prop) (seq : F → F) (machine : Machine F M) (fuel : Nat)
    (f : F) (h : Handle) :
    (counterparts own seq).Simulates Eq (machine.enter fuel f h) (machine.enter fuel f h) :=
  simulates_enter counterparts_lawful (fun f h => counterparts_refl own seq (machine f h)) fuel f h

variable {machine : Machine F M} {b : Value F} {start : Option (State F)}

/-- A call of a counterpart goes like a call of the callable. -/
theorem simulates_counterpart (hseq : machine.Sequel own seq b) (fuel : Nat) {f : F}
    (hf : own f) (h : Handle) :
    (counterparts own seq).Simulates
      (fun v v' => v' = v.sequel seq b ∧ ∀ g, v.callee? = some g → own g)
      (machine.enter fuel f h) (machine.enter fuel (seq f) h) := by
  refine Comparison.Related.and_of_ok ?_ fun w v w' hcall => hseq.stays hf hcall
  cases fuel with
  | zero => exact .exhausted
  | succ fuel =>
      -- What the counterpart does is what the callable does, and then a change of the result
      -- alone.
      have hprogram : (counterparts own seq).Simulates Eq
          ((machine f h).exec (machine.enter fuel) fuel)
          ((machine f h).exec (machine.enter fuel) fuel) :=
        (counterparts_refl own seq (machine f h)).simulates counterparts_lawful
          (fun f h => counterparts_refl own seq (machine f h)) fuel
      have hcall : (counterparts own seq).Simulates (fun v v' => v' = v.sequel seq b)
          ((machine f h).exec (machine.enter fuel) fuel)
          ((machine (seq f) h).exec (machine.enter fuel) fuel) := by
        rw [hseq.does f h hf, ← Execution.bind_pure (Program.exec _ fuel (machine f h))]
        refine hprogram.bind ?_
        rintro u _ rfl
        exact .pure rfl
      -- Only the notes of the entry differ: the counterpart is noted where the callable was.
      refine hcall.after (f := fun w => w.note (.entered f h (w.get h)))
        (g := fun v => v.note (.entered (seq f) h (v.get h))) fun w v ⟨hwv, _⟩ => ?_
      exact leads_of_history_eq hwv { hwv with } (w.history_note _) (v.history_note _)
        (.cons (.entered (.inr ⟨hf, rfl⟩) (hwv.get h)) .nil)

/-- Where the first chain has ended, the second one goes like the rest of the one chain. -/
theorem simulates_handOn (hb : b.asState initialName = .ok start) (settings settings' : Settings F)
    (h : Handle) (fuel n : Nat) :
    (counterparts own seq).Simulates Eq (handOn (machine.enter fuel) settings h b n)
      (follow (machine.enter fuel) settings' h n start) := by
  have hsame : Option.Rel (counterparts own seq).states start start := by
    cases start with
    | none => exact .none
    | some s => exact .some rfl
  have hcalls : ∀ s s' : State F, s = s' → (counterparts own seq).Simulates Eq
      (s.call (machine.enter fuel) h) (s'.call (machine.enter fuel) h) := by
    rintro s _ rfl
    simp only [State.call_eq]
    exact simulates_enter_self own seq machine fuel _ h
  intro w v hwv
  have hstop : stop settings h w = (some (.ok (w.get h).tokens), (stop settings h w).2) := rfl
  -- The end of the first chain has no part in the one chain, but makes no difference either.
  have hended : ((counterparts own seq).comparison M).Leads w v (stop settings h w).2 v :=
    hwv.1.report_if _ False h h _ (.dropped [] 0 0)
  have hhanded : handOn (machine.enter fuel) settings h b n w
      = follow (machine.enter fuel) (stop settings h w).2.settings h n start
        (stop settings h w).2 := by
    unfold handOn
    rw [Execution.bind_of_ok hstop]
    simp only [run, hb]
  rw [hhanded]
  rcases (counterparts_lawful.chains h).related_follow trivial hcalls .same hsame
    (Comparison.start _ hended) with hnone | ⟨o, v', hfollow, houtcome, hleads⟩
  · exact .inl hnone
  · exact .inr ⟨o, v', hfollow, houtcome, Comparison.trans _ hended hleads⟩

/-- What an own state hands back is checked like what its counterpart hands back. -/
theorem simulates_link_counterpart (hseq : machine.Sequel own seq b)
    (hb : b.asState initialName = .ok start) (settings settings' : Settings F) (h : Handle)
    (fuel : Nat) {s : State F} (hs : own s.callee) :
    (counterparts own seq).Simulates
      (fun t t' => t' = (t.map (State.sequel seq)).or start ∧ ∀ s', t = some s' → own s'.callee)
      (link (machine.enter fuel) settings h s)
      (link (machine.enter fuel) settings' h (s.sequel seq)) := by
  rw [link_eq, link_eq, State.callee_sequel]
  refine (simulates_counterpart hseq fuel hs h).bind ?_
  rintro u _ ⟨rfl, hown⟩
  refine Comparison.related_of_forall fun w v hwv => ?_
  -- The reports name the state, and a counterpart has the name of what it stands for.
  have hname : (s.sequel seq).name = s.name := State.name_sequel (hseq.name_eq _ hs)
  unfold receive
  rw [hname, Value.asState_sequel (Value.asState_of_ok hb s.name)]
  cases hu : u.asState s.name with
  | error e => exact ⟨.some (.error rfl), hwv⟩
  | ok t =>
      refine ⟨.some (.ok ⟨rfl, ?_⟩), hwv.1.report_if ..⟩
      rintro s' rfl
      exact hown _ (Value.callee?_of_asState hu)

/-- A relay goes like the chain of counterparts. -/
theorem simulates_relay (hseq : machine.Sequel own seq b) (hb : b.asState initialName = .ok start)
    (settings settings' : Settings F) (h : Handle) (fuel n : Nat) {s : Option (State F)}
    (hs : ∀ s', s = some s' → own s'.callee) :
    (counterparts own seq).Simulates Eq (relay (machine.enter fuel) settings h b n s)
      (follow (machine.enter fuel) settings' h n ((s.map (State.sequel seq)).or start)) := by
  induction n generalizing s with
  | zero =>
      exact simulates_passOn settings' h (simulates_handOn hb settings settings' h fuel 0)
        (fun _ _ => .exhausted) hs
  | succ n ih =>
      refine simulates_passOn settings' h (simulates_handOn hb settings settings' h fuel (n + 1))
        ?_ hs
      intro s hs
      refine (simulates_link_counterpart hseq hb settings settings' h fuel hs).bind ?_
      rintro t _ ⟨rfl, hown⟩
      exact ih hown

end Likeness

/-! ### Runs compose -/

section Runs

variable [Callable F] {machine : Machine F M} {own : F → Prop} {seq : F → F} {a b : Value F}
  {h : Handle} {w x x' : World F M} {r : Except Fault (List (Token F))}

open Chain

/-- In a world a relay and the chain of counterparts come to one outcome, by the same
course. -/
theorem Machine.Sequel.relayFrom_eq (hseq : machine.Sequel own seq b)
    (hb : ∃ start, b.asState initialName = .ok start) (ha : ∀ f, a.callee? = some f → own f)
    (h : Handle) (fuel n : Nat) (w : World F M) :
    (relayFrom (machine.enter fuel) h b n a w).1
        = (run (machine.enter fuel) n h (a.sequel seq b) w).1 ∧
      (relayFrom (machine.enter fuel) h b n a w).2.SameCourse own seq
        (run (machine.enter fuel) n h (a.sequel seq b) w).2 := by
  obtain ⟨start, hb⟩ := hb
  have hself : (Likeness.counterparts own seq).Worlds w w :=
    .self (fun _ _ => rfl) (fun _ => rfl) w
  unfold relayFrom run
  rw [Value.asState_sequel hb]
  -- If the first start is no state, neither is its sequel, and both fail at once.
  cases hs : a.asState initialName with
  | error e => exact ⟨rfl, hself.sameCourse (Likeness.leads_self hself).2.2⟩
  | ok s =>
      have hown : ∀ s', s = some s' → own s'.callee := by
        rintro s' rfl
        exact ha _ (Value.callee?_of_asState hs)
      obtain ⟨houtcome, hworld, halong⟩ := Likeness.simulates_iff.mp
        (Likeness.simulates_relay hseq hb w.settings w.settings h fuel n hown) hself
      exact ⟨Results.outcome_eq (fun _ _ he => he) houtcome, hworld.sameCourse halong⟩

/-- What two runs in a row come to, the chain of counterparts comes to. -/
theorem Machine.Sequel.ends_run (hseq : machine.Sequel own seq b)
    (hb : ∃ start, b.asState initialName = .ok start) (ha : ∀ f, a.callee? = some f → own f)
    (hends : machine.Ends (do let _ ← .run h a; .run h b) w r x) :
    ∃ x', machine.Ends (.run h (a.sequel seq b)) w r x' ∧ x.SameCourse own seq x' := by
  obtain ⟨n, hexec⟩ := hends
  -- Calls get as much fuel as the relay takes, and each of the two runs keeps its own.
  have hruns : ((run (machine.enter (n + n)) n h a).bind
      fun _ => run (machine.enter (n + n)) n h b) w = (some r, x) := by
    have hmore := Program.extends_exec (machine.extends_enter (Nat.le_add_right n n))
      (Nat.le_refl n) (do let _ ← .run h a; .run h b) w
    have hne : (machine.exec n (do let _ ← .run h a; .run h b) w).1 ≠ none := by simp [hexec]
    exact (hmore hne).trans hexec
  have hrelay : relayFrom (machine.enter (n + n)) h b (n + n) a w = (some r, x) := by
    rw [extends_relayFrom _ h b n n a w (by simp [hruns]), hruns]
  obtain ⟨houtcome, hcourse⟩ := hseq.relayFrom_eq hb ha h (n + n) (n + n) w
  rw [hrelay] at houtcome hcourse
  exact ⟨_, Machine.ends_exec houtcome.symm, hcourse⟩

/-- What the chain of counterparts comes to, two runs in a row come to. -/
theorem Machine.Sequel.ends_of_ends_run (hseq : machine.Sequel own seq b)
    (hb : ∃ start, b.asState initialName = .ok start) (ha : ∀ f, a.callee? = some f → own f)
    (hends : machine.Ends (.run h (a.sequel seq b)) w r x') :
    ∃ x, machine.Ends (do let _ ← .run h a; .run h b) w r x ∧ x.SameCourse own seq x' := by
  obtain ⟨n, hexec⟩ := hends
  have hrun : run (machine.enter n) n h (a.sequel seq b) w = (some r, x') := hexec
  obtain ⟨houtcome, hcourse⟩ := hseq.relayFrom_eq hb ha h n n w
  rw [hrun] at houtcome hcourse
  have hruns := relayFrom_extends (machine.enter n) h b (Nat.le_refl n) a w (by simp [houtcome])
  have hboth : machine.exec n (do let _ ← .run h a; .run h b) w
      = (some r, (relayFrom (machine.enter n) h b n a w).2) :=
    hruns.trans (Prod.ext houtcome rfl)
  exact ⟨_, ⟨n, hboth⟩, hcourse⟩

/-- **Runs compose.** Take a chain with counterparts that go on with `b`, which is valid.
If a run of the chain from `a` on ends with a result, then the run from the counterpart of
`a` on comes to what a further run from `b` on comes to: to the same result or the same
fault, by the same course, or to no end. If the run fails, the other one fails in the same
way, and if it does not end, the other one does not either. -/
theorem runs_compose (hseq : machine.Sequel own seq b)
    (hb : ∃ start, b.asState initialName = .ok start) (ha : ∀ f, a.callee? = some f → own f)
    (h : Handle) (w : World F M) :
    (∀ ts v, machine.Ends (.run h a) w (.ok ts) v → ∀ r,
      (∀ x, machine.Ends (.run h b) v r x →
        ∃ x', machine.Ends (.run h (a.sequel seq b)) w r x' ∧ x.SameCourse own seq x') ∧
      ∀ x', machine.Ends (.run h (a.sequel seq b)) w r x' →
        ∃ x, machine.Ends (.run h b) v r x ∧ x.SameCourse own seq x') ∧
    (∀ e v, machine.Ends (.run h a) w (.error e) v →
      ∃ v', machine.Ends (.run h (a.sequel seq b)) w (.error e) v' ∧ v.SameCourse own seq v') ∧
    ((¬∃ r v, machine.Ends (.run h a) w r v) →
      ¬∃ r x', machine.Ends (.run h (a.sequel seq b)) w r x') := by
  refine ⟨?_, ?_, ?_⟩
  · intro ts v hfirst r
    refine ⟨?_, ?_⟩
    · intro x hsecond
      exact hseq.ends_run hb ha (Machine.ends_bind_iff.mpr (.inr ⟨ts, v, hfirst, hsecond⟩))
    · intro x' hends
      obtain ⟨x, hboth, hcourse⟩ := hseq.ends_of_ends_run hb ha hends
      rcases Machine.ends_bind_iff.mp hboth with ⟨e, hfails, -⟩ | ⟨ts', v', hfirst', hsecond⟩
      · cases (hfirst.unique hfails).1
      · obtain ⟨-, rfl⟩ := hfirst.unique hfirst'
        exact ⟨x, hsecond, hcourse⟩
  · -- The first run fails or does not end. Then so do both together, as the second is never
    -- begun.
    intro e v hfails
    exact hseq.ends_run hb ha (Machine.ends_bind_iff.mpr (.inl ⟨e, hfails, rfl⟩))
  · rintro hnone ⟨r, x', hends⟩
    obtain ⟨x, hboth, -⟩ := hseq.ends_of_ends_run hb ha hends
    rcases Machine.ends_bind_iff.mp hboth with ⟨e, hfails, -⟩ | ⟨ts, v, hfirst, -⟩
    · exact hnone ⟨_, _, hfails⟩
    · exact hnone ⟨_, _, hfirst⟩

end Runs

/-- A chain that ends after one character, which it leaves pending, and one that reads on
to the end. -/
theorem runs_compose_relay :
    let base : Ini.StateId → Handle → Program (Wrapped Ini.StateId) Unit
        (Value (Wrapped Ini.StateId)) := fun s h => do
      match s with
      | .line =>
        Program.tell h .advance
        return .none
      | s =>
        Program.tell h (.tokenizeNext 2 (.category .keyword))
        return .callable ⟨s, 0⟩
    let b : Value (Wrapped Ini.StateId) := .callable ⟨.key, 0⟩
    let machine := Wrapped.machine base b
    let new : World (Wrapped Ini.StateId) Unit := { memory := () }
    let w := (new.create "abcd".toList).2
    ∃ v x x' ts, machine.Ends (.run 0 (.callable ⟨.line, 0⟩)) w (.ok []) v ∧
      machine.Ends (.run 0 b) v (.ok ts) x ∧
      ts.map Token.lexeme = ["a".toList, "bc".toList, "d".toList] ∧
      machine.Ends (.run 0 (.callable ⟨.line, 1⟩)) w (.ok ts) x' ∧
      x.SameCourse (fun _ => True) Wrapped.wrap x' := by
  intro base b machine new w
  let v := (machine.exec 9 (.run 0 (.callable ⟨.line, 0⟩)) w).2
  have hnone : (machine.exec 9 (.run 0 (.callable ⟨.line, 0⟩)) w).1 = some (.ok []) := rfl
  have hlexemes : ((machine.exec 9 (.run 0 b) v).1.bind Except.toOption).map
      (List.map Token.lexeme) = some ["a".toList, "bc".toList, "d".toList] := by decide +kernel
  obtain ⟨ts, hts, hlexemes⟩ := Option.map_eq_some_iff.mp hlexemes
  obtain ⟨r, hr, hok⟩ := Option.bind_eq_some_iff.mp hts
  have hfirst := Machine.ends_exec hnone
  have hsecond := Machine.ends_exec hr
  cases r with
  | error e => cases hok
  | ok us =>
      obtain rfl := Option.some.inj hok
      obtain ⟨x', hends, hcourse⟩ := ((runs_compose (Wrapped.sequel base b) ⟨_, rfl⟩
        (a := .callable ⟨.line, 0⟩) (fun _ _ => trivial) 0 w).1 [] v hfirst (.ok us)).1 _ hsecond
      exact ⟨v, _, x', us, hfirst, hsecond, hlexemes, hends, hcourse⟩

end LexChain
