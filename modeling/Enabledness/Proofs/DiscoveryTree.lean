import Enabledness.Proofs.SettledOnce

/-!
# Discovery is a tree

Every state but the initial one is discovered once, by a transition from a state that was there before.
The automaton, the visited states and the states that the log notes as discovered tell the same story.

* `ResultLog.Discovers` : the log notes that a main action discovered a state.
* `Rooted` : the notes form a tree over the visited states, with the initial state at its root.
* `Setup.Reaches.rooted` : this holds at every moment, whatever the order of the questions.
* `constructBy_discovery_tree` : what it means for a finished construction.
-/

namespace Enabledness

open Exploration

/-! ## Who discovered what -/

namespace ResultLog

/-- The log notes that a main action in a state discovered a target. -/
def Discovers (l : ResultLog) (source : State) (main : Action) (target : State) : Prop :=
  ∃ p, l.pair? source main = some p ∧ target ∈ p.enqueued

variable {l l' : ResultLog} {source target : State} {main : Action}

theorem not_discovers_empty : ¬ ({} : ResultLog).Discovers source main target := by
  rintro ⟨p, hp, -⟩
  simp [pair?] at hp

theorem enqueued_store (p : PairLog) (kind : QueryKind) (o : Outcome) :
    (p.store kind o).enqueued = p.enqueued := by
  rcases kind with (_ | _) | ⟨_ | _, _⟩ | ⟨_ | _, _, _⟩ <;> rfl

/-- Changing a pair changes the notes of this pair only. -/
theorem discovers_alterPair (l : ResultLog) (s : State) (a : Action) (f : PairLog → PairLog) :
    (l.alterPair s a f).Discovers source main target ↔
      if source = s ∧ main = a then target ∈ (f ((l.pair? s a).getD {})).enqueued
      else l.Discovers source main target := by
  unfold Discovers
  rw [pair?_alterPair]
  split
  · simp
  · rfl

/-- What a pair has discovered, if there is such a pair. -/
theorem mem_enqueued_getD : target ∈ ((l.pair? source main).getD {}).enqueued ↔
    l.Discovers source main target := by
  unfold Discovers
  cases l.pair? source main with
  | none =>
    have hnone : ¬ target ∈ (Roster.empty : Roster State) := List.not_mem_nil
    simpa using hnone
  | some p => simp

/-- Storing an outcome notes no discovery. -/
theorem discovers_store (l : ResultLog) (q : Query) (o : Outcome) :
    (l.store q o).Discovers source main target ↔ l.Discovers source main target := by
  unfold store
  split
  · rfl
  · rw [discovers_alterPair]
    split
    · next h =>
      obtain ⟨rfl, rfl⟩ := h
      rw [enqueued_store, mem_enqueued_getD]
    · rfl

/-- A discovery is noted for its source and its action. -/
theorem discovers_recordEnqueued (l : ResultLog) (t : Transition) :
    (l.recordEnqueued t).Discovers source main target ↔
      (source = t.source ∧ main = t.action ∧ target = t.target) ∨ l.Discovers source main target := by
  -- the empty table that the target gets holds no notes
  have htouch : ∀ l' : ResultLog, ({ l' with
      perState := l'.perState.alter t.target .empty id } : ResultLog).Discovers source main target ↔
        l'.Discovers source main target := by
    intro l'
    unfold Discovers pair?
    simp only [Table.get?_alter]
    by_cases h : source = t.target
    · subst h
      cases l'.perState.get? t.target <;> simp
    · simp [h]
  show ({ (l.register t.target).alterPair t.source t.action _ with perState := _ } :
    ResultLog).Discovers source main target ↔ _
  rw [htouch, discovers_alterPair]
  split
  · next h =>
    obtain ⟨rfl, rfl⟩ := h
    rw [Roster.mem_insert, mem_enqueued_getD]
    simp only [true_and]
    rfl
  · next h =>
    constructor
    · exact Or.inr
    · rintro (⟨hs, hm, -⟩ | hold)
      · exact absurd ⟨hs, hm⟩ h
      · exact hold

end ResultLog

/-! ## Trees of discoveries -/

/-- The notes of a log form a tree over the visited states, which are those of the automaton. -/
structure Rooted (initial : State) (a : Automaton) (l : ResultLog) : Prop where
  /-- The states were visited in the order in which the automaton found them. -/
  visited_eq : l.visited.toList = a.states.toList
  /-- The initial state comes first. -/
  head?_eq : l.visited.toList.head? = some initial
  /-- Nobody discovers the initial state. -/
  ne_initial : ∀ {source main target}, l.Discovers source main target → target ≠ initial
  /-- The action of a discovery is enabled. -/
  enabled : ∀ {source main target}, l.Discovers source main target → main ∈ source
  /-- States are discovered by states that were there before. -/
  earlier : ∀ {source main target}, l.Discovers source main target →
    [source, target].Sublist l.visited.toList
  /-- A discovery is a transition that exists, under some completion. -/
  exists_transition : ∀ {source main target}, l.Discovers source main target →
    ∃ c, existenceIn? l c source main target ≠ none
  /-- Every other state was discovered. -/
  discovered : ∀ target ∈ l.visited, target ≠ initial → ∃ source main, l.Discovers source main target
  /-- No state was discovered twice. -/
  unique : ∀ {source main source' main' target}, l.Discovers source main target →
    l.Discovers source' main' target → source = source' ∧ main = main'

namespace Rooted

variable {initial : State} {a : Automaton} {l l' : ResultLog}

/-- At the start there is the root alone. -/
theorem start (initial : State) :
    Rooted initial (Exploration.start initial).automaton (Exploration.start initial).log := by
  have hnone : ∀ {source main target},
      ¬ (Exploration.start initial).log.Discovers source main target :=
    ResultLog.not_discovers_empty
  have hvisited : (Exploration.start initial).log.visited.toList = [initial] :=
    Roster.toList_singleton initial
  refine ⟨rfl, by rw [hvisited]; rfl, fun h => absurd h hnone, fun h => absurd h hnone,
    fun h => absurd h hnone, fun h => absurd h hnone, fun target ht hne => ?_, fun h => absurd h hnone⟩
  rw [← Roster.mem_toList, hvisited, List.mem_singleton] at ht
  exact absurd ht hne

/-- Outcomes that say nothing new about transitions keep the tree. -/
theorem congr (h : Rooted initial a l) (hvisited : l'.visited = l.visited)
    (hnotes : ∀ {source main target},
      l'.Discovers source main target ↔ l.Discovers source main target)
    (hexists : ∀ {c source main target}, existenceIn? l c source main target ≠ none →
      existenceIn? l' c source main target = existenceIn? l c source main target) :
    Rooted initial a l' := by
  refine ⟨hvisited ▸ h.visited_eq, hvisited ▸ h.head?_eq, fun hd => h.ne_initial (hnotes.1 hd),
    fun hd => h.enabled (hnotes.1 hd), fun hd => hvisited ▸ h.earlier (hnotes.1 hd), fun hd => ?_,
    fun target ht hne => ?_, fun hd hd' => h.unique (hnotes.1 hd) (hnotes.1 hd')⟩
  · obtain ⟨c, hc⟩ := h.exists_transition (hnotes.1 hd)
    exact ⟨c, by rwa [hexists hc]⟩
  · obtain ⟨source, main, hd⟩ := h.discovered target (hvisited ▸ ht) hne
    exact ⟨source, main, hnotes.2 hd⟩

/-- Recording the first outcome of a query keeps the tree. -/
theorem record (h : Rooted initial a l) {q : Query} (run : VerifierRun)
    (hnew : l.outcome? q.source q.main q.kind = none) : Rooted initial a (l.record q run) := by
  refine h.congr (visited_store _ _ _) (ResultLog.discovers_store _ _ _) fun {c source main target} hc => ?_
  apply existenceIn?_store
  rintro ⟨hpair, hkind⟩
  obtain ⟨rfl, rfl⟩ := Prod.mk.inj hpair
  rw [hkind] at hnew
  simp [existenceIn?, ResultLog.answer?, hnew] at hc

/-- Copying global outcomes keeps the tree. -/
theorem copied (h : Rooted initial a l) {state : State} (hc : Copied state l l') :
    Rooted initial a l' := by
  induction hc with
  | refl => exact h
  | copy _ hkind _ _ _ ih =>
    refine ih (h.congr (visited_store _ _ _) (ResultLog.discovers_store _ _ _) fun _ => ?_)
    apply existenceIn?_store
    rintro ⟨-, hkind'⟩
    rw [hkind] at hkind'
    simp at hkind'

section AddTransition

variable {t : Transition} (h : Rooted initial a l) (hsource : t.source ∈ a.states)

include h hsource

/-- A transition between known states adds no state. -/
theorem addTransition (hknown : a.isDiscovery t = false) : Rooted initial (a.addTransition t) l := by
  have htarget : t.target ∈ a.states.insert t.source :=
    of_not_not (of_decide_eq_false hknown)
  have hstates : (a.addTransition t).states.toList = a.states.toList := by
    show ((a.states.insert t.source).insert t.target).toList = a.states.toList
    rw [Roster.toList_insert, if_pos htarget, Roster.toList_insert, if_pos hsource]
  exact { h with visited_eq := h.visited_eq.trans hstates.symm }

/-- **A discovery adds a leaf to the tree.** -/
theorem discover (haction : t.action ∈ t.source) (hnew : a.isDiscovery t = true) {c : Completion}
    (hexists : existenceIn? l c t.source t.action t.target ≠ none) :
    Rooted initial (a.addTransition t) (l.recordEnqueued t) := by
  have hmem : ∀ {state}, state ∈ l.visited ↔ state ∈ a.states := by
    intro state
    rw [← Roster.mem_toList, h.visited_eq, Roster.mem_toList]
  have htarget : t.target ∉ l.visited := fun ht =>
    (Automaton.isDiscovery_iff hsource).1 hnew (hmem.1 ht)
  -- the target is appended to both lists of states
  have hvisited : (l.recordEnqueued t).visited.toList = l.visited.toList ++ [t.target] := by
    show (l.visited.insert t.target).toList = _
    rw [Roster.toList_insert, if_neg htarget]
  have hstates : (a.addTransition t).states.toList = a.states.toList ++ [t.target] := by
    have hfresh : t.target ∉ a.states.insert t.source := of_decide_eq_true hnew
    show ((a.states.insert t.source).insert t.target).toList = _
    rw [Roster.toList_insert, if_neg hfresh, Roster.toList_insert, if_pos hsource]
  have hold : ∀ {source main target}, (l.recordEnqueued t).Discovers source main target →
      (source = t.source ∧ main = t.action ∧ target = t.target) ∨
        l.Discovers source main target ∧ target ∈ l.visited := by
    intro source main target hd
    rcases (ResultLog.discovers_recordEnqueued l t).1 hd with hd | hd
    · exact Or.inl hd
    · exact Or.inr ⟨hd, (h.earlier hd).subset (by simp)⟩
  have hexistence : ∀ c source main target, existenceIn? (l.recordEnqueued t) c source main target =
      existenceIn? l c source main target := by
    intro c source main target
    exact congrArg (fun o => (o.map Outcome.answer).bind existence?)
      (ResultLog.outcome?_recordEnqueued l t source main (.transition c target))
  have hinitial : initial ∈ l.visited := by
    rw [← Roster.mem_toList]
    exact List.mem_of_mem_head? h.head?_eq
  refine ⟨?_, ?_, fun hd => ?_, fun hd => ?_, fun hd => ?_, fun hd => ?_, fun target ht hne => ?_,
    fun hd hd' => ?_⟩
  · rw [hvisited, hstates, h.visited_eq]
  · rw [hvisited, List.head?_append, h.head?_eq]
    rfl
  · rcases hold hd with ⟨-, -, rfl⟩ | ⟨hd, -⟩
    · exact fun heq => htarget (heq ▸ hinitial)
    · exact h.ne_initial hd
  · rcases hold hd with ⟨rfl, rfl, -⟩ | ⟨hd, -⟩
    · exact haction
    · exact h.enabled hd
  · rw [hvisited]
    rcases hold hd with ⟨rfl, -, rfl⟩ | ⟨hd, -⟩
    · exact (List.singleton_sublist.2 (Roster.mem_toList.2 (hmem.2 hsource))).append (.refl [t.target])
    · exact (h.earlier hd).trans (List.sublist_append_left _ _)
  · rcases hold hd with ⟨rfl, rfl, rfl⟩ | ⟨hd, -⟩
    · exact ⟨c, by rwa [hexistence]⟩
    · obtain ⟨c', hc'⟩ := h.exists_transition hd
      exact ⟨c', by rwa [hexistence]⟩
  · rw [← Roster.mem_toList, hvisited, List.mem_append, List.mem_singleton] at ht
    rcases ht with ht | rfl
    · obtain ⟨source, main, hd⟩ := h.discovered target ht hne
      exact ⟨source, main, (ResultLog.discovers_recordEnqueued l t).2 (Or.inr hd)⟩
    · exact ⟨t.source, t.action, (ResultLog.discovers_recordEnqueued l t).2 (Or.inl ⟨rfl, rfl, rfl⟩)⟩
  · -- the new state is not among those that were discovered before
    rcases hold hd with ⟨rfl, rfl, rfl⟩ | ⟨hd, ht⟩ <;>
      rcases hold hd' with ⟨rfl, rfl, heq⟩ | ⟨hd', ht'⟩
    · exact ⟨rfl, rfl⟩
    · exact absurd ht' htarget
    · exact absurd (heq ▸ ht) htarget
    · exact h.unique hd hd'

end AddTransition

end Rooted

/-! ## A whole construction -/

namespace Setup

variable {s : Setup} {initial : State} {p : Progress}

/-- **Discovery is a tree at every moment**, whatever the order of the questions. -/
theorem Reaches.rooted (hinitial : ∀ a ∈ initial, a ∈ s.set.actions) (h : s.Reaches initial p) :
    Rooted initial p.exploration.automaton p.exploration.log := by
  have hgives : s.Gives fun _ _ => True := fun _ _ _ _ _ => trivial
  refine h.induction (P := fun p => Rooted initial p.exploration.automaton p.exploration.log)
    (fun p hp => ?_) fun p p' hreaches ih hstep => ?_
  · obtain ⟨e, he, hexploration, -⟩ := exists_explore_of_begin hp
    have hroot := (Rooted.start initial).copied (copied_explore he)
    rw [hexploration]
    rwa [← (sameReach_explore he).1] at hroot
  · obtain ⟨i, q, run, hq, hsettle, -⟩ := hstep.exists_settle
    -- the query waits, so that its source is a state and it has no outcome yet
    have hsound := (hreaches.inOrder hgives hinitial).sound
    obtain ⟨hsource, hexplored⟩ := hsound.books.explored hq
    have hnew : p.exploration.log.outcome? q.source q.main q.kind = none :=
      Option.map_eq_none_iff.1 (hexplored.asked (mem_queuedAt_of_getElem? hq)).2
    have hrecord := ih.record run hnew
    rcases settle_cases hsettle with ⟨hlog, hsame | ⟨t, ht, hknown, hadded⟩⟩ |
      ⟨c, target, existence, hkind, hex, hdiscovery, hadded, hcopied⟩
    · rw [hlog, hsame]
      exact hrecord
    · rw [hlog, hadded]
      exact hrecord.addTransition (t := t) (by rw [ht]; exact hsource) hknown
    · rw [hadded]
      refine Rooted.copied ?_ hcopied
      refine hrecord.discover (t := ⟨q.source, target, q.main, existence⟩) (c := c) hsource
        q.main_mem_source hdiscovery ?_
      rw [existenceIn?_record, if_pos ⟨rfl, hkind⟩, hex]
      simp

end Setup

/-- **Discovery is a tree rooted at the initial state.**  Let a construction give a result, in whatever
order it asked its queries.

* The visited states are the states of the automaton in the same order, none of them twice, and the
  initial state comes first.
* Every other visited state was discovered by exactly one pair of a state and an action that it enables.
  That state was visited before, and the log has an outcome YES or MAYBE for the transition.
* The initial state was not discovered by anyone.
* Every state of the automaton is reached from the initial one along its transitions. -/
theorem constructBy_discovery_tree {s : Setup} {schedule : Schedule} {initial : State}
    {r : Construction} (hinitial : ∀ a ∈ initial, a ∈ s.set.actions)
    (h : s.constructBy schedule initial = .ok r) :
    r.log.visited.toList = r.automaton.states.toList ∧
    r.log.visited.toList.Nodup ∧
    r.log.visited.toList.head? = some initial ∧
    (∀ target ∈ r.log.visited, target ≠ initial → ∃ source main,
      (∀ source' main', r.log.Discovers source' main' target ↔ source' = source ∧ main' = main) ∧
      main ∈ source ∧ [source, target].Sublist r.log.visited.toList ∧
      ∃ c o, r.log.outcome? source main (.transition c target) = some o ∧
        (o.answer = .yes ∨ o.answer = .maybe)) ∧
    (∀ source main, ¬ r.log.Discovers source main initial) ∧
    ∀ state ∈ r.automaton.states, r.automaton.Reaches state := by
  have hgives : s.Gives fun _ _ => True := fun _ _ _ _ _ => trivial
  obtain ⟨p, hreaches, hfinished⟩ := Setup.exists_reaches_of_constructBy hgives hinitial h
  have hrooted := hreaches.rooted hinitial
  have hcharted := hfinished.complete.charted
  obtain rfl := hfinished.result_eq
  refine ⟨hrooted.visited_eq, Roster.nodup _, hrooted.head?_eq, fun target ht hne => ?_,
    fun source main hd => hrooted.ne_initial hd rfl, hcharted.reaches⟩
  obtain ⟨source, main, hd⟩ := hrooted.discovered target ht hne
  refine ⟨source, main, fun source' main' => ⟨fun hd' => hrooted.unique hd' hd, ?_⟩,
    hrooted.enabled hd, hrooted.earlier hd, ?_⟩
  · rintro ⟨rfl, rfl⟩
    exact hd
  · obtain ⟨c, hc⟩ := hrooted.exists_transition hd
    unfold existenceIn? ResultLog.answer? at hc
    cases ho : p.exploration.log.outcome? source main (.transition c target) with
    | none => simp [ho] at hc
    | some o =>
      refine ⟨c, o, ho, ?_⟩
      rw [ho] at hc
      cases ha : o.answer with
      | yes => exact Or.inl rfl
      | maybe => exact Or.inr rfl
      | no => simp [ha, existence?] at hc

/-- The lamp whose necessities are all proven: four states are visited, and each of them but the first
has one pair that discovered it. -/
theorem constructBy_discovery_tree_lamp : ∃ r, lampProven.constructBy .fifo lampOff = .ok r ∧
    r.log.visited.toList.length = 4 ∧ r.log.visited.toList = r.automaton.states.toList ∧
    ∀ target ∈ r.log.visited, target ≠ lampOff → ∃ source main,
      (∀ source' main', r.log.Discovers source' main' target ↔ source' = source ∧ main' = main) ∧
      [source, target].Sublist r.log.visited.toList := by
  have hinitial : ∀ a ∈ lampOff, a ∈ lampProven.set.actions := fun a ha =>
    (SortedSet.mem_filter.1 ha).1
  have heval : ((lampProven.begin lampOff).toOption.any fun p₀ => (lampProven.askOldest 46 p₀).any
      fun p => p.exploration.queue.items.isEmpty &&
        p.exploration.log.visited.toList.length == 4) = true := by
    decide +kernel
  obtain ⟨p₀, hbegin, heval⟩ := Setup.exists_begin_of_any heval
  obtain ⟨p, hask, heval⟩ := (Option.any_eq_true _ _).1 heval
  simp only [Bool.and_eq_true, List.isEmpty_iff, beq_iff_eq] at heval
  obtain ⟨hitems, hlength⟩ := heval
  have hgives : lampProven.Gives fun _ _ => True := fun _ _ _ _ _ => trivial
  obtain ⟨r, hr, hfinished⟩ :=
    Setup.exists_constructBy_of_askOldest hgives hinitial rfl hbegin hask hitems
  obtain ⟨hvisited, -, -, htree, -⟩ := constructBy_discovery_tree hinitial hr
  refine ⟨r, hr, by rw [hfinished.result_eq]; exact hlength, hvisited, fun target ht hne => ?_⟩
  obtain ⟨source, main, honly, -, hearlier, -⟩ := htree target ht hne
  exact ⟨source, main, honly, hearlier⟩

end Enabledness
