import LexChain.Proofs.Comparison
import Mathlib.Data.List.Forall2

/-!
# `LexChain.Proofs.Likeness`: executions that go alike

Two executions go alike when at every moment their worlds are alike and they come to
like outcomes. What counts as alike is left open: a `Likeness` says so for tokenizers,
answers, lists, callables, states, values and faults. From there it is carried over to
events and worlds, and to programs: `Likeness.Programs` relates programs that do the same
things to tokenizers and go on alike after like results, so a program that is like itself
is one that makes nothing of the difference.

So a likeness is a comparison of executions (`Likeness.comparison`): like worlds lead to like
worlds, and to histories with like deeds. `Likeness.Programs.simulates` is the law: like programs
in like worlds go alike. It holds for every likeness that is lawful, that is, if like
tokenizers give like answers and like values stand for like states. Reports have no part in it,
and neither have the settings that a chain found when it began.
-/

set_option autoImplicit false

namespace LexChain

variable {F M α β γ δ ι : Type}

/-- The events of a list that are no reports, in order. -/
def deeds (events : List (Event F)) : List (Event F) := events.filter (·.record?.isNone)

/-- Deeds of one stretch and then of another. -/
@[simp] theorem deeds_append (es fs : List (Event F)) : deeds (es ++ fs) = deeds es ++ deeds fs :=
  List.filter_append ..

/-- Reports are no deeds. -/
theorem deeds_reported (h : Handle) (records : List (Record F)) :
    deeds (records.map (.reported h)) = [] := by
  simp [deeds, Event.record?]

/-- What is read off events, but not off reports, can be read off the deeds alone. -/
theorem filterMap_deeds {f : Event F → Option α} (hf : ∀ h record, f (.reported h record) = none)
    (es : List (Event F)) : (deeds es).filterMap f = es.filterMap f := by
  unfold deeds
  rw [List.filterMap_filter]
  congr 1
  funext e
  cases e with
  | reported h record => exact (hf h record).symm
  | _ => rfl

/-- What counts as alike. -/
structure Likeness (F : Type) where
  /-- Which tokenizers are alike that a handle stands for. -/
  tokenizers : Handle → Tokenizer F → Tokenizer F → Prop
  /-- Which answers of theirs are alike. -/
  answers : Handle → (q : Query) → q.Answer F → q.Answer F → Prop
  /-- Which contents of a list are alike that was handed out. -/
  lists : List (Token F) → List (Token F) → Prop
  callables : F → F → Prop
  states : State F → State F → Prop
  /-- Which values are alike when a state hands them back. -/
  values : Value F → Value F → Prop
  faults : Fault → Fault → Prop

namespace Likeness

/-- The likeness under which states, values and faults are alike only when they are
equal. -/
def strict (tokenizers : Handle → Tokenizer F → Tokenizer F → Prop)
    (answers : Handle → (q : Query) → q.Answer F → q.Answer F → Prop)
    (lists : List (Token F) → List (Token F) → Prop) (callables : F → F → Prop) : Likeness F :=
  { tokenizers, answers, lists, callables, states := Eq, values := Eq, faults := Eq }

variable (L : Likeness F)

/-- The same event for like tokenizers, which give like answers to a question, and are
left alike by a command. -/
inductive Events : Event F → Event F → Prop
  | created {h : Handle} {t u : Tokenizer F} (ht : L.tokenizers h t u) :
      Events (.created h t) (.created h u)
  | entered {f g : F} {h : Handle} {t u : Tokenizer F} (hf : L.callables f g)
      (ht : L.tokenizers h t u) : Events (.entered f h t) (.entered g h u)
  | asked {h : Handle} {q : Query} {t u : Tokenizer F} (ht : L.tokenizers h t u)
      (ha : Results L.faults (L.answers h q) (t.answer q) (u.answer q)) :
      Events (.asked h q t) (.asked h q u)
  | told {h : Handle} {c : Command F} {t u : Tokenizer F} (ht : L.tokenizers h t u)
      (hr : Results L.faults Eq (c.apply t).1 (c.apply u).1)
      (hafter : L.tokenizers h (c.apply t).2 (c.apply u).2) :
      Events (.told h c t) (.told h c u)

/-- Worlds that are alike: tokenizers are, and lists; settings and memory are equal. A handle that
is not given out yet stands for tokenizers that are like themselves. -/
structure Worlds (w v : World F M) : Prop where
  next_eq : v.shelf.next = w.shelf.next
  get : ∀ h, L.tokenizers h (w.get h) (v.get h)
  refl_of_le : ∀ h t, w.shelf.next ≤ h → L.tokenizers h t t
  handed_eq : v.shelf.handed.length = w.shelf.handed.length
  held : ∀ k, L.lists (w.held k) (v.held k)
  settings_eq : v.settings = w.settings
  memory_eq : v.memory = w.memory

/-- What happened after two worlds, reports apart, is alike. -/
def Alongside (w v w' v' : World F M) : Prop :=
  ∃ es es', w'.history = w.history ++ es ∧ v'.history = v.history ++ es' ∧
    List.Forall₂ L.Events (deeds es) (deeds es')

/-- A command that keeps tokenizers alike, and has a like outcome for them. -/
def Keeps (h : Handle) (c : Command F) : Prop :=
  ∀ t u, L.tokenizers h t u →
    Results L.faults Eq (c.apply t).1 (c.apply u).1 ∧ L.tokenizers h (c.apply t).2 (c.apply u).2

/-- Steps that do the same, with like results. -/
inductive Steps : {α β : Type} → (α → β → Prop) → Program F M α → Program F M β → Prop
  | create (source : Text) : Steps Eq (.create source) (.create source)
  | ask (h : Handle) (q : Query) : Steps (L.answers h q) (.ask h q) (.ask h q)
  | tell {h : Handle} {c : Command F} (hc : L.Keeps h c) : Steps Eq (.tell h c) (.tell h c)
  | run (h : Handle) {v v' : Value F} (hv : L.values v v') :
      Steps (L.answers h .tokens) (.run h v) (.run h v')
  | call (f : F) (h : Handle) : Steps L.values (.call f h) (.call f h)
  | hold (h : Handle) : Steps Eq (.hold h) (.hold h)
  | held (k : ListId) : Steps L.lists (.held k) (.held k)
  | clear (k : ListId) : Steps Eq (.clear k) (.clear k)
  | settings : Steps Eq .settings .settings
  | configure (s : Settings F) : Steps Eq (.configure s) (.configure s)
  | memory : Steps Eq .memory .memory
  | remember (m : M) : Steps Eq (.remember m) (.remember m)

/-- Like worlds lead to like worlds, and what happens on the way is alike. -/
def comparison (M : Type) : Comparison F M where
  faults := L.faults
  steps := L.Steps
  Leads w v w' v' := L.Worlds w v ∧ L.Worlds w' v' ∧ L.Alongside w v w' v'
  start := fun ⟨_, hwv, _⟩ =>
    ⟨hwv, hwv, [], [], (List.append_nil _).symm, (List.append_nil _).symm, .nil⟩
  -- Two stretches of a run are like each other one after the other, since the events are
  -- compared in order.
  trans := by
    rintro w v w' v' w'' v'' ⟨hwv, _, es, es', hes, hes', hevents⟩
      ⟨_, hwv'', fs, fs', hfs, hfs', hevents'⟩
    refine ⟨hwv, hwv'', es ++ fs, es' ++ fs', ?_, ?_, ?_⟩
    · rw [hfs, hes, List.append_assoc]
    · rw [hfs', hes', List.append_assoc]
    · rw [deeds_append, deeds_append]
      exact List.rel_append hevents hevents'
  -- A thread begins with settings of its own. They are taken from equal settings, so they are
  -- equal, and no event is added on entering or leaving.
  enter := by
    rintro w v s _ rfl ⟨hwv, _⟩
    have hentry : s.entry v.settings = s.entry w.settings := by rw [hwv.settings_eq]
    have hin : L.Worlds { w with settings := s.entry w.settings }
        { v with settings := s.entry v.settings } := { hwv with settings_eq := hentry }
    exact ⟨hin, hin, [], [], (List.append_nil _).symm, (List.append_nil _).symm, .nil⟩
  leave := by
    rintro w v w' v' s _ rfl ⟨hwv, _⟩ ⟨_, hwv', halong⟩
    exact ⟨hwv, { hwv' with settings_eq := hwv.settings_eq }, halong⟩

/-- Two programs that do the same, and go on alike after like results. -/
abbrev Programs (Q : α → β → Prop) (p : Program F M α) (q : Program F M β) : Prop :=
  p.Corresponds (L.comparison M).toCorrespondence Q q

/-- In like worlds the two executions come to like outcomes, and leave like worlds. -/
abbrev Simulates (Q : α → β → Prop) (x : Execution F M α) (y : Execution F M β) : Prop :=
  (L.comparison M).Relates Q x y

/-- Like tokenizers have characters left both or neither, and give like answers, so that like
lists come of them; like values stand for like states, which come down to the same callable. -/
structure Lawful [Callable F] : Prop where
  hasMore_eq : ∀ {h : Handle} {t u : Tokenizer F}, L.tokenizers h t u → t.hasMore = u.hasMore
  answer : ∀ {h : Handle} {t u : Tokenizer F} (q : Query), L.tokenizers h t u →
    Results L.faults (L.answers h q) (t.answer q) (u.answer q)
  lists_nil : L.lists [] []
  lists : ∀ {h : Handle} {ts us : List (Token F)}, L.answers h .tokens ts us → L.lists ts us
  callables_refl : ∀ f, L.callables f f
  callee_eq : ∀ {s s' : State F}, L.states s s' → s.callee = s'.callee
  asState : ∀ {v v' : Value F} {s s' : State F}, L.values v v' → L.states s s' →
    Results L.faults (Option.Rel L.states) (v.asState s.name) (v'.asState s'.name)
  asState_initial : ∀ {v v' : Value F}, L.values v v' →
    Results L.faults (Option.Rel L.states) (v.asState Chain.initialName)
      (v'.asState Chain.initialName)

variable {L} {w v w' v' : World F M} {Q : α → β → Prop} {S : γ → δ → Prop}

/-! ### Worlds -/

/-- A pair of like worlds may be started from. -/
theorem leads_self (hwv : L.Worlds w v) : (L.comparison M).Leads w v w v :=
  ⟨hwv, hwv, [], [], (List.append_nil _).symm, (List.append_nil _).symm, .nil⟩

/-- Like events lead from like worlds to like worlds. -/
theorem leads_of_history_eq (hwv : L.Worlds w v) (hwv' : L.Worlds w' v') {es es' : List (Event F)}
    (hes : w'.history = w.history ++ es) (hes' : v'.history = v.history ++ es')
    (hevents : List.Forall₂ L.Events (deeds es) (deeds es')) :
    (L.comparison M).Leads w v w' v' :=
  ⟨hwv, hwv', es, es', hes, hes', hevents⟩

/-- Steps that add nothing to the histories lead from like worlds to like worlds. -/
theorem leads_of_history_same (hwv : L.Worlds w v) (hwv' : L.Worlds w' v')
    (hw : w'.history = w.history) (hv : v'.history = v.history) :
    (L.comparison M).Leads w v w' v' :=
  leads_of_history_eq hwv hwv' (hw.trans (List.append_nil _).symm)
    (hv.trans (List.append_nil _).symm) .nil

namespace Worlds

/-- A world is like itself if tokenizers and lists are. -/
theorem self (hrefl : ∀ h t, L.tokenizers h t t) (hlists : ∀ ts, L.lists ts ts) (w : World F M) :
    L.Worlds w w where
  next_eq := rfl
  get _ := hrefl ..
  refl_of_le _ _ _ := hrefl ..
  handed_eq := rfl
  held _ := hlists _
  settings_eq := rfl
  memory_eq := rfl

/-- A tokenizer that is created in both worlds is like itself. -/
theorem create (hwv : L.Worlds w v) (source : Text) :
    (w.create source).1 = (v.create source).1 ∧
      (L.comparison M).Leads w v (w.create source).2 (v.create source).2 := by
  -- Both worlds number their tokenizers alike, so the new ones stand at the same place.
  have hhandle : (v.create source).1 = (w.create source).1 := hwv.next_eq
  have hnew : L.tokenizers (w.create source).1 { source, traced := w.settings.tracesTokens }
      { source, traced := v.settings.tracesTokens } := by
    rw [hwv.settings_eq]
    exact hwv.refl_of_le _ _ (Nat.le_refl _)
  refine ⟨hhandle.symm, leads_of_history_eq hwv ?_ (w.history_create source)
    (v.history_create source) ?_⟩
  · refine ⟨?_, ?_, ?_, hwv.handed_eq, fun k => ?_, hwv.settings_eq, hwv.memory_eq⟩
    · rw [World.next_create, World.next_create, hwv.next_eq]
    · intro h
      by_cases hh : h = (w.create source).1
      · rw [hh, w.get_create]
        rw [← hhandle, v.get_create, hhandle]
        exact hnew
      · rw [w.get_create_of_ne source hh, v.get_create_of_ne source (hhandle ▸ hh)]
        exact hwv.get h
    · intro h t hle
      rw [World.next_create] at hle
      exact hwv.refl_of_le h t (Nat.le_trans (Nat.le_max_left ..) hle)
    · rw [w.held_create, v.held_create]
      exact hwv.held k
  · rw [hhandle]
    exact .cons (.created hnew) .nil

/-- A question to like tokenizers leaves the worlds as they are. -/
theorem ask (hwv : L.Worlds w v) {h : Handle} {q : Query}
    (ha : Results L.faults (L.answers h q) ((w.get h).answer q) ((v.get h).answer q)) :
    (L.comparison M).Leads w v (w.ask h q).2 (v.ask h q).2 :=
  leads_of_history_eq hwv { hwv with } (w.history_ask h q) (v.history_ask h q)
    (.cons (.asked (hwv.get h) ha) .nil)

/-- A command that keeps tokenizers alike keeps worlds alike. -/
theorem tell (hwv : L.Worlds w v) {h : Handle} {c : Command F} (hc : L.Keeps h c) :
    Results L.faults Eq (w.tell h c).1 (v.tell h c).1 ∧
      (L.comparison M).Leads w v (w.tell h c).2 (v.tell h c).2 := by
  obtain ⟨hresult, hafter⟩ := hc _ _ (hwv.get h)
  refine ⟨hresult, leads_of_history_eq hwv ?_ (w.history_tell h c) (v.history_tell h c) ?_⟩
  · -- Only the tokenizer that was told changes, and there the command keeps the relation.
    refine ⟨?_, ?_, ?_, hwv.handed_eq, fun k => ?_, hwv.settings_eq, hwv.memory_eq⟩
    · rw [World.next_tell, World.next_tell, hwv.next_eq]
    · intro k
      by_cases hk : k = h
      · rw [hk, World.get_tell, World.get_tell]
        exact hafter
      · rw [World.get_tell_of_ne w c hk, World.get_tell_of_ne v c hk]
        exact hwv.get k
    · intro k t hle
      rw [World.next_tell] at hle
      exact hwv.refl_of_le k t (Nat.le_trans (Nat.le_max_left ..) hle)
    · rw [w.held_tell, v.held_tell]
      exact hwv.held k
  · -- The reports are no deeds, so the command alone is added on both sides.
    have htold : ∀ (t : Tokenizer F) (records : List (Record F)),
        deeds (.told h c t :: records.map (.reported h)) = [.told h c t] := by
      intro t records
      show Event.told h c t :: deeds (records.map (.reported h)) = _
      rw [deeds_reported]
    rw [htold, htold]
    exact .cons (.told (hwv.get h) hresult hafter) .nil

/-- Lists of like tokenizers are handed out under one number. -/
theorem hold (hwv : L.Worlds w v) {h : Handle}
    (hlists : L.lists (w.get h).tokens (v.get h).tokens)
    (ha : Results L.faults (L.answers h .tokens) ((w.get h).answer .tokens)
      ((v.get h).answer .tokens)) :
    (w.hold h).1 = (v.hold h).1 ∧ (L.comparison M).Leads w v (w.hold h).2 (v.hold h).2 := by
  -- Both worlds number the lists handed out alike, so the new ones are at the same place.
  have hnumber : v.shelf.handed.length = w.shelf.handed.length := hwv.handed_eq
  refine ⟨hnumber.symm, leads_of_history_eq hwv ?_ (w.history_ask h .tokens)
    (v.history_ask h .tokens) (.cons (.asked (hwv.get h) ha) .nil)⟩
  refine { hwv with handed_eq := ?_, held := fun k => ?_ }
  · show (v.shelf.hold h).handed.length = (w.shelf.hold h).handed.length
    rw [Shelf.handed_length_hold, Shelf.handed_length_hold, hnumber]
  · show L.lists ((w.shelf.hold h).held k) ((v.shelf.hold h).held k)
    by_cases hk : k = w.shelf.handed.length
    · rw [hk, Shelf.held_hold, ← hnumber, Shelf.held_hold]
      exact hlists
    · rw [Shelf.held_hold_of_ne _ _ hk, Shelf.held_hold_of_ne _ _ (hnumber ▸ hk)]
      exact hwv.held k

/-- A list is emptied in both worlds. -/
theorem clear (hwv : L.Worlds w v) (hnil : L.lists [] []) (k : ListId) :
    L.Worlds (w.clear k) (v.clear k) where
  next_eq := by
    show (v.shelf.clear k).toList.length = (w.shelf.clear k).toList.length
    rw [Shelf.toList_clear, Shelf.toList_clear]
    exact hwv.next_eq
  get h := by
    rw [w.get_clear, v.get_clear]
    exact hwv.get h
  refl_of_le h t hle := by
    refine hwv.refl_of_le h t (Nat.le_trans (Nat.le_of_eq ?_) hle)
    show w.shelf.toList.length = (w.shelf.clear k).toList.length
    rw [Shelf.toList_clear]
  handed_eq := by
    show (v.shelf.clear k).handed.length = (w.shelf.clear k).handed.length
    rw [Shelf.handed_clear, Shelf.handed_clear]
    exact hwv.handed_eq
  held j := by
    show L.lists ((w.shelf.clear k).held j) ((v.shelf.clear k).held j)
    by_cases hj : j = k
    · rw [hj, Shelf.held_clear, Shelf.held_clear]
      exact hnil
    · rw [Shelf.held_clear_of_ne _ hj, Shelf.held_clear_of_ne _ hj]
      exact hwv.held j
  settings_eq := hwv.settings_eq
  memory_eq := hwv.memory_eq

/-- Reports make no difference, one in each world at most. -/
theorem report_if (hwv : L.Worlds w v) (c d : Prop) [Decidable c] [Decidable d] (h k : Handle)
    (record record' : Record F) :
    (L.comparison M).Leads w v (if c then w.report h record else w)
      (if d then v.report k record' else v) := by
  -- Whether a report is written is left open on either side: a report is no deed, so neither
  -- history grows in what is compared.
  have hreport : ∀ (u : World F M) (c : Prop) [Decidable c] (h : Handle) (record : Record F),
      ∃ es, (if c then u.report h record else u).history = u.history ++ es ∧ deeds es = [] := by
    intro u c _ h record
    split
    · exact ⟨_, u.history_report h record, rfl⟩
    · exact ⟨[], (List.append_nil _).symm, rfl⟩
  obtain ⟨es, hes, hnone⟩ := hreport w c h record
  obtain ⟨es', hes', hnone'⟩ := hreport v d k record'
  refine leads_of_history_eq hwv ?_ hes hes' (by rw [hnone, hnone']; exact .nil)
  split <;> split <;> exact { hwv with }

end Worlds

/-- What it means that executions go alike. Nothing is left out, so both have an outcome or
neither. -/
theorem simulates_iff {x : Execution F M α} {y : Execution F M β} :
    L.Simulates Q x y ↔ ∀ ⦃w v : World F M⦄, L.Worlds w v →
      Option.Rel (Results L.faults Q) (x w).1 (y v).1 ∧
        L.Worlds (x w).2 (y v).2 ∧ L.Alongside w v (x w).2 (y v).2 := by
  refine Comparison.relates_iff.trans ⟨fun hxy w v hwv => ?_, fun hxy w v hwv => .inr ?_⟩
  · rcases hxy (leads_self hwv) with ⟨hlax, -⟩ | ⟨houtcome, -, hworlds⟩
    · exact hlax.elim
    · exact ⟨houtcome, hworlds⟩
  · exact ⟨(hxy hwv.1).1, hwv.1, (hxy hwv.1).2⟩

variable [Callable F]

/-- Where states, values and faults are alike only when they are equal, tokenizers alone
have to obey laws. -/
theorem Lawful.strict {tokenizers : Handle → Tokenizer F → Tokenizer F → Prop}
    {answers : Handle → (q : Query) → q.Answer F → q.Answer F → Prop}
    {lists : List (Token F) → List (Token F) → Prop} {callables : F → F → Prop}
    (hcallables : ∀ f, callables f f) (hnil : lists [] [])
    (hlists : ∀ {h : Handle} {ts us : List (Token F)}, answers h .tokens ts us → lists ts us)
    (hasMore_eq : ∀ {h : Handle} {t u : Tokenizer F}, tokenizers h t u → t.hasMore = u.hasMore)
    (answer : ∀ {h : Handle} {t u : Tokenizer F} (q : Query), tokenizers h t u →
      Results Eq (answers h q) (t.answer q) (u.answer q)) :
    (strict tokenizers answers lists callables).Lawful := by
  refine { hasMore_eq, answer, lists_nil := hnil, lists := hlists, callables_refl := hcallables,
           callee_eq := ?_, asState := ?_, asState_initial := ?_ }
  · rintro s _ rfl
    rfl
  · rintro v _ s _ rfl rfl
    exact Comparison.results_asState (fun _ => rfl) _ _
  · rintro v _ rfl
    exact Comparison.results_asState (fun _ => rfl) _ _

/-! ### Chains and programs -/

/-- Chains go alike from like states on, whatever they report. -/
theorem Lawful.chains (hL : L.Lawful) (h : Handle) :
    (L.comparison M).Chains h h (fun _ _ => True) L.states L.values (L.answers h .tokens) where
  found _ _ _ := trivial
  hasMore_eq := fun _ _ hwv => hL.hasMore_eq (hwv.1.get h)
  handed := by
    intro w v ⟨hwv, _⟩
    cases hL.answer .tokens (hwv.get h) with
    | ok hts => exact hts
  stop := fun _ _ _ _ _ hwv => hwv.1.report_if ..
  arrive := fun _ _ _ _ _ _ _ _ _ _ _ hwv => hwv.1.report_if ..
  asState := hL.asState
  asState_initial := hL.asState_initial

/-- What is known of single steps: like tokenizers give like answers, and are kept alike. -/
theorem Lawful.steps (hL : L.Lawful) {l : Filter ι} :
    (L.comparison M).Steps l (fun f h g k => f = g ∧ h = k) L.values where
  entered := by
    rintro f _ h _ w v ⟨rfl, rfl⟩ ⟨hwv, _⟩
    exact leads_of_history_eq hwv { hwv with } (w.history_note _) (v.history_note _)
      (.cons (.entered (hL.callables_refl f) (hwv.get h)) .nil)
  exec := by
    intro enter enter' n rounds hcalls hrounds α β Q p q hpq
    -- One case for each single command, by the law for what it does to the shelf.
    cases hpq with
    | create source => exact Comparison.related_of_ok fun _ _ hwv => hwv.1.create source
    | ask h q =>
        refine Comparison.related_of_forall fun w v ⟨hwv, _⟩ => ?_
        have hanswer := hL.answer q (hwv.get h)
        exact ⟨.some hanswer, hwv.ask hanswer⟩
    | tell hc =>
        refine Comparison.related_of_forall fun w v ⟨hwv, _⟩ => ?_
        obtain ⟨hresult, hworld⟩ := hwv.tell hc
        exact ⟨.some hresult, hworld⟩
    | run h hv =>
        refine (hL.chains h).run (fun s s' hs => ?_) hrounds hv
        simp only [State.call_eq, hL.callee_eq hs]
        exact hcalls _ h _ h ⟨rfl, rfl⟩
    | call f h => exact hcalls f h f h ⟨rfl, rfl⟩
    | hold h =>
        refine Comparison.related_of_ok fun w v ⟨hwv, hself⟩ => ?_
        exact hwv.hold (hL.lists ((hL.chains h).handed ⟨hwv, hself⟩)) (hL.answer _ (hwv.get h))
    | held k => exact Comparison.related_of_ok fun _ _ hwv => ⟨hwv.1.held k, hwv⟩
    | clear k =>
        exact Comparison.related_of_ok fun _ _ hwv =>
          ⟨rfl, leads_of_history_same hwv.1 (hwv.1.clear hL.lists_nil k) rfl rfl⟩
    | settings => exact Comparison.related_of_ok fun _ _ hwv => ⟨hwv.1.settings_eq.symm, hwv⟩
    | configure s =>
        exact Comparison.related_of_ok fun _ _ hwv =>
          ⟨rfl, leads_of_history_same hwv.1 { hwv.1 with settings_eq := rfl } rfl rfl⟩
    | memory => exact Comparison.related_of_ok fun _ _ hwv => ⟨hwv.1.memory_eq.symm, hwv⟩
    | remember m =>
        exact Comparison.related_of_ok fun _ _ hwv =>
          ⟨rfl, leads_of_history_same hwv.1 { hwv.1 with memory_eq := rfl } rfl rfl⟩

variable {machine machine' : Machine F M}

/-- Calls go alike on two machines whose programs are alike. -/
theorem simulates_enter (hL : L.Lawful)
    (hmachine : ∀ f h, L.Programs L.values (machine f h) (machine' f h)) (fuel : Nat) (f : F)
    (h : Handle) : L.Simulates L.values (machine.enter fuel f h) (machine'.enter fuel f h) := by
  refine hL.steps.enter ?_ .same ⟨rfl, rfl⟩
  rintro f h _ _ ⟨rfl, rfl⟩
  exact hmachine f h

/-- **Like programs go alike in like worlds**, on two machines of like programs. -/
theorem Programs.simulates (hL : L.Lawful)
    (hmachine : ∀ f h, L.Programs L.values (machine f h) (machine' f h)) (fuel : Nat)
    {p : Program F M α} {q : Program F M β} (hpq : L.Programs Q p q) :
    L.Simulates Q (machine.exec fuel p) (machine'.exec fuel q) := by
  refine hL.steps.machine_exec ?_ .same hpq
  rintro f h _ _ ⟨rfl, rfl⟩
  exact hmachine f h

end Likeness

end LexChain
