import Enabledness.Proofs.ClassActions
import Enabledness.Proofs.CrewBooks
import Enabledness.Proofs.ProgramGrowth
import Enabledness.Proofs.QueryNames

/-!
# What the verifier reads

A worker adds the procedure of a query to its program before it asks the verifier, unless a procedure of
that name is there already.  So the program has one procedure for each name, and its text is that of the
first query of this name that the worker asked about.

* `Setup.programFor` : the program of a worker, by the queries that it asked about.
* `Crew.Run.program_eq` : that this is its program, at any moment of any run.
* `Crew.Run.asked_text` : the text under the name of a query, whenever the verifier is asked about it.
  It is the text of that very query if no two actions of the class share an unqualified name.
* `Crew.asked_text_pair` : it is the text of another query for a class in which two actions do.
-/

namespace Enabledness

open Std

/-! ## Programs -/

/-- A table has at most one entry for each key. -/
theorem Table.filter_entries {κ β : Type} [Ord κ] [TransOrd κ] [DecidableEq κ] (t : Table κ β) (k : κ) :
    t.entries.filter (fun e => e.1 = k) = (t.get? k).toList.map fun v => (k, v) := by
  have honly : ∀ keys : List κ, keys.Nodup →
      (keys.filterMap fun x => (t.get? x).map (x, ·)).filter (fun e => e.1 = k) =
        if k ∈ keys then (t.get? k).toList.map fun v => (k, v) else [] := by
    -- by induction on the keys, of which none comes twice
    intro keys hnodup
    induction keys with
    | nil => rfl
    | cons x keys ih =>
      obtain ⟨hx, hnodup⟩ := List.nodup_cons.1 hnodup
      have ih := ih hnodup
      by_cases hk : x = k
      · subst hk
        rw [if_neg hx] at ih
        cases hv : t.get? x with
        | none => simp [hv, ih]
        | some v => simp [hv, ih]
      · cases hv : t.get? x with
        | none => simp [hv, ih, Ne.symm hk]
        | some v => simp [hv, ih, hk, Ne.symm hk]
  rw [entries, honly t.keys t.nodup_keys]
  split
  · rfl
  · next hk =>
    cases hv : t.get? k with
    | none => rfl
    | some v => exact absurd (mem_keys_of_get? hv) hk

namespace Program

/-- A program has one fragment for each name that it has a procedure of. -/
theorem filter_fragments (p : Program) (name : String) :
    p.fragments.filter (fun f => f.1 = some name) =
      (p.procedures.get? name).toList.map fun text => (some name, text) := by
  have hbase : p.fragments.filter (fun f => f.1 = some name) =
      (p.procedures.entries.filter fun e => e.1 = name).map fun e => (some e.1, e.2) := by
    simp [fragments, List.filter_map, Function.comp_def]
  rw [hbase, Table.filter_entries, List.map_map]
  rfl

end Program

/-- The program of a worker that asked about some queries. -/
def Setup.programFor (s : Setup) (asked : List Query) : Program :=
  asked.foldl (fun p q => p.append q.name (q.procedureText s.set s.code)) (.ofBase s.base)

theorem Setup.programFor_concat (s : Setup) (asked : List Query) (q : Query) :
    s.programFor (asked ++ [q]) =
      (s.programFor asked).append q.name (q.procedureText s.set s.code) := by
  simp [programFor]

/-- The procedure of a query, as it is added to a program. -/
def Setup.addition (s : Setup) (q : Query) : Program.Addition :=
  ⟨q.name, q.procedureText s.set s.code⟩

theorem Setup.programFor_eq_after (s : Setup) (asked : List Query) :
    s.programFor asked = Program.after s.base (asked.map s.addition) := by
  rw [programFor, Program.after, List.foldl_map]
  rfl

/-- The procedure of a name has the text of the first query of this name. -/
theorem Setup.get?_programFor (s : Setup) (asked : List Query) (name : String) :
    (s.programFor asked).procedures.get? name =
      (asked.find? fun q => q.name = name).map fun q => q.procedureText s.set s.code := by
  rw [programFor_eq_after, Program.get?_after, List.find?_map, Option.map_map]
  rfl

/-! ## Questions of a crew -/

/-- The queries that a worker asked about. -/
def askedBy (i : Nat) (events : List Event) : List Query := (history i events).filterMap Act.asked?

theorem mem_askedBy {i : Nat} {events : List Event} {q : Query} :
    q ∈ askedBy i events ↔ ∃ program, (some i, .asks q program) ∈ events := by
  rw [askedBy, List.mem_filterMap]
  constructor
  · rintro ⟨a, ha, hq⟩
    cases a with
    | asks q' program =>
      obtain rfl := Option.some.inj hq
      exact ⟨program, mem_history.1 ha⟩
    | pushes | settles | fails => simp [Act.asked?] at hq
  · rintro ⟨program, hx⟩
    exact ⟨_, mem_history.2 hx, rfl⟩

namespace Crew

variable {s : Setup} {c c' : Crew} {events before after more : List Event} {initial : State}
  {n i : Nat} {q : Query} {program : Program}

/-- In one step at most one thing happens. -/
theorem Step.length_le (h : Step s c more c') : more.length ≤ 1 := by
  have hchore : ∀ (chore : Chore) e, (chore.acts e).length ≤ 1 := by
    intro chore e
    cases chore with
    | push q => by_cases hc : e.queue.closed = true <;> simp [Chore.acts, hc]
    | _ => simp [Chore.acts]
  cases h with
  | explore => simpa using hchore _ _
  | work _ hmove =>
    rw [List.length_map]
    cases hmove with
    | chore => exact hchore _ _
    | ask | settle | fail => exact Nat.le_refl 1
    | _ => exact Nat.zero_le 1
  | _ => exact Nat.zero_le 1

/-- Everything that happens on a run happens in one of its steps. -/
theorem Run.exists_step {c₀ : Crew} {x : Event} (h : Run s c₀ events c)
    (hevents : events = before ++ x :: after) :
    ∃ c₁ c₂, Run s c₀ before c₁ ∧ Step s c₁ [x] c₂ := by
  induction h generalizing after with
  | refl => simp at hevents
  | @snoc events more c₁ c₂ hrun hstep ih =>
    have hlength := hstep.length_le
    cases more with
    | nil => exact ih (by rw [← hevents, List.append_nil])
    | cons y rest =>
      obtain rfl : rest = [] := List.eq_nil_of_length_eq_zero (by simpa using hlength)
      -- what happens last is this, or comes after it
      rcases List.eq_nil_or_concat after with rfl | ⟨after, z, rfl⟩
      · obtain ⟨rfl, hx⟩ := List.append_inj' hevents rfl
        obtain rfl := (List.cons.inj hx).1
        exact ⟨c₁, c₂, hrun, hstep⟩
      · rw [List.concat_eq_append, ← List.cons_append, ← List.append_assoc] at hevents
        exact ih (List.append_inj' hevents rfl).1

/-- The verifier is asked by a worker who holds the query, about its program with the query added. -/
theorem Step.asks (h : Step s c more c') {worker : Option Nat}
    (hx : (worker, Act.asks q program) ∈ more) : ∃ i w, worker = some i ∧ c.workers[i]? = some w ∧
      w.stage = .holding q ∧ program = w.program.append q.name (q.procedureText s.set s.code) := by
  cases h with
  | explore =>
    obtain ⟨a, ha, heq⟩ := List.mem_map.1 hx
    obtain ⟨q', -, rfl⟩ := Chore.eq_pushes_of_mem_acts ha
    simp at heq
  | @work sh sh' before after w w' lead acts _ hmove =>
    obtain ⟨a, ha, heq⟩ := List.mem_map.1 hx
    obtain ⟨rfl, rfl⟩ := Prod.mk.inj heq
    refine ⟨before.length, w, rfl, by simp, ?_⟩
    cases hmove with
    | ask n happend =>
      obtain ⟨rfl, rfl⟩ := Act.asks.inj (List.mem_singleton.1 ha)
      exact ⟨rfl, happend⟩
    | chore =>
      obtain ⟨q', -, hpush⟩ := Chore.eq_pushes_of_mem_acts ha
      exact absurd hpush (by simp)
    | settle | fail => exact absurd (List.mem_singleton.1 ha) (by simp)
    | _ => exact absurd ha List.not_mem_nil
  | _ => exact absurd hx List.not_mem_nil

/-- A worker has the program for the queries that it asked about. -/
theorem Run.program_eq (h : Run s (start s initial n) events c) {w : Worker}
    (hw : c.workers[i]? = some w) : w.program = s.programFor (askedBy i events) := by
  have hkeeps := h.witnessed (P := fun h w => w.program = s.programFor (h.filterMap Act.asked?)) rfl
    fun h sh w acts sh' w' hmove hprogram => ?_
  · exact (hkeeps.2 i).1 w hw
  · -- only a question changes the program
    rw [List.filterMap_append]
    cases hmove with
    | ask n happend =>
      subst happend
      exact (congrArg (Program.append · _ _) hprogram).trans (Setup.programFor_concat s _ _).symm
    | chore =>
      rw [List.filterMap_eq_nil_iff.2 Chore.asked?_of_mem_acts, List.append_nil]
      exact hprogram
    | _ => exact (List.append_nil _).symm ▸ hprogram

/-- Every question is asked by one of the workers. -/
theorem Run.exists_askedBy (h : Run s (start s initial n) events c) (hq : q ∈ askedIn events) :
    ∃ i < n, q ∈ askedBy i events := by
  obtain ⟨⟨worker, a⟩, hx, ha⟩ := List.mem_filterMap.1 hq
  cases a with
  | asks q' program =>
    obtain rfl := Option.some.inj ha
    obtain ⟨before, after, hevents⟩ := List.append_of_mem hx
    obtain ⟨c₁, c₂, hrun, hstep⟩ := h.exists_step hevents
    obtain ⟨i, w, rfl, hw, -⟩ := hstep.asks List.mem_cons_self
    obtain ⟨hlength, -⟩ := hrun.witnessed (P := fun _ _ => True) trivial fun _ _ _ _ _ _ _ _ => trivial
    obtain ⟨hi, -⟩ := List.getElem?_eq_some_iff.1 hw
    exact ⟨i, hlength ▸ hi, mem_askedBy.2 ⟨program, hx⟩⟩
  | pushes | settles | fails => simp [Act.asked?] at ha

/-- All questions are about the class. -/
theorem Run.isOver_of_mem_askedBy (hinitial : ∀ a ∈ initial, a ∈ s.set.actions)
    (h : Run s (start s initial n) events c) (hq : q ∈ askedBy i events) : q.IsOver s.set := by
  obtain ⟨program, hx⟩ := mem_askedBy.1 hq
  obtain ⟨before, after, hevents⟩ := List.append_of_mem hx
  obtain ⟨c₁, c₂, hrun, hstep⟩ := h.exists_step hevents
  obtain ⟨j, w, -, hw, hholds, -⟩ := hstep.asks List.mem_cons_self
  -- a query in the hands of a worker is on the books
  have hload : Chore.push q ∈ c₁.load := by
    refine List.mem_append_right _ (List.mem_flatMap.2 ⟨w, List.mem_of_getElem? hw, ?_⟩)
    rw [hholds]
    exact List.mem_cons_self
  exact ((hrun.safe hinitial).orderly.proper _ hload).2

/-- **What the verifier reads.**  However many workers an accepted class has, and however their steps
interleave: whenever a worker asks about a query, its program has exactly one fragment of the name of the
query.  The text is that of the first query of this name that the worker asked about, which is the query
itself if no two actions of the class share an unqualified name. -/
theorem Run.asked_text {table : ClassTable} (hclass : table.actionSet = .ok s.set)
    (hinitial : ∀ a ∈ initial, a ∈ s.set.actions) (h : Run s (start s initial n) events c)
    (hevents : events = before ++ (some i, .asks q program) :: after) :
    ∃ first, (askedBy i before ++ [q]).find? (fun q' => q'.name = q.name) = some first ∧
      program.fragments.filter (fun f => f.1 = some q.name) =
        [(some q.name, first.procedureText s.set s.code)] ∧
      ((∀ a ∈ s.set.actions, ∀ b ∈ s.set.actions, a.name = b.name → a = b) → first = q) := by
  obtain ⟨c₁, c₂, hrun, hstep⟩ := h.exists_step hevents
  obtain ⟨j, w, hj, hw, -, hprogram⟩ := hstep.asks List.mem_cons_self
  obtain rfl := Option.some.inj hj
  rw [hrun.program_eq hw, ← Setup.programFor_concat] at hprogram
  have hsome : ((askedBy i before ++ [q]).find? fun q' => q'.name = q.name).isSome = true := by
    rw [List.find?_isSome]
    exact ⟨q, List.mem_append_right _ List.mem_cons_self, decide_eq_true rfl⟩
  obtain ⟨first, hfirst⟩ := Option.isSome_iff_exists.1 hsome
  refine ⟨first, hfirst, ?_, fun hdistinct => ?_⟩
  · rw [hprogram, Program.filter_fragments, Setup.get?_programFor, hfirst]
    rfl
  · have hover : q.IsOver s.set := h.isOver_of_mem_askedBy (i := i) hinitial <| mem_askedBy.2
      ⟨program, hevents ▸ List.mem_append_right _ List.mem_cons_self⟩
    have hname : first.name = q.name := by simpa using List.find?_some hfirst
    rcases List.mem_append.1 (List.mem_of_find?_eq_some hfirst) with hmem | hmem
    · exact Query.eq_of_name_eq (fun a => table.isIdentifier_of_mem_actions hclass) hdistinct
        (hrun.isOver_of_mem_askedBy hinitial hmem) hover hname
    · exact List.mem_singleton.1 hmem

end Crew

/-! ## Two actions of one name -/

/-- A class with two actions that are called `go`. -/
def pairClass : ClassTable where
  name := "Pair"
  operations := [
    { qualifiedName := "Pair#inv", returnType := some boolType },
    { qualifiedName := "A#go" },
    { qualifiedName := "A#go_pre", returnType := some boolType },
    { qualifiedName := "B#go" },
    { qualifiedName := "B#go_pre", returnType := some boolType }]

/-- An action of the pair. -/
def pairAction (owner : String) : Action where
  precondition := { qualifiedName := owner ++ "#go_pre", returnType := some boolType }
  operation := { qualifiedName := owner ++ "#go" }

/-- The pair under a verifier that always gives up. -/
def pairSetup : Setup where
  set := ⟨.ofList [pairAction "A", pairAction "B"],
    { qualifiedName := "Pair#inv", returnType := some boolType }⟩
  code := ⟨"", fun _ => "", ClassCode.defaultProcedureName, []⟩
  base := ""
  verifier := .ofVerdicts (fun _ => .inconclusive) (fun _ => "")

theorem pairAction_mem : pairAction "A" ∈ pairSetup.set.actions ∧
    pairAction "B" ∈ pairSetup.set.actions := by
  decide

/-- Whether an action of the pair keeps the invariant, asked where both can be called. -/
def pairQuery (owner : String) (h : pairAction owner ∈ pairSetup.set.actions) : Query :=
  ⟨pairSetup.set.actions, pairAction owner, .invariant .normal, faultless_invariant h .normal⟩

namespace Crew

/-- A crew of one asks about the invariant after either action of the pair. -/
theorem exists_run_pair : ∃ events c,
    Run pairSetup (start pairSetup pairSetup.set.actions 1) events c ∧
      ∀ owner h, pairQuery owner h ∈ askedBy 0 events := by
  have hruns : ∀ n program q, q.IsOver pairSetup.set →
      ∃ run, pairSetup.verifier n program q = .ran run := fun _ _ _ _ => ⟨_, rfl⟩
  have hgives : pairSetup.Gives fun _ _ => True := fun _ _ _ _ _ => trivial
  have hinitial : ∀ a ∈ pairSetup.set.actions, a ∈ pairSetup.set.actions := fun a ha => ha
  obtain ⟨r, hr⟩ := Setup.exists_constructBy .fifo hinitial hruns (by decide) rfl rfl
  obtain ⟨events, c, hrun, -, hmatches⟩ := Setup.exists_run_of_constructBy .fifo hinitial rfl
  rw [hr] at hmatches
  obtain ⟨p, hp⟩ := Setup.exists_finished_of_constructBy hgives hinitial hr
  obtain ⟨reused, htally⟩ := hp.inOrder.tallied
  refine ⟨events, c, hrun, fun owner h => ?_⟩
  -- the query has an answer, and it did not take that of a global query
  have hanswered : p.exploration.answerTo? (pairQuery owner h) ≠ none := by
    have hiff := hp.complete.answered_iff (pairQuery owner h)
    rw [hp.result_eq] at hiff
    exact hiff.2 ⟨hp.inOrder.sound.charted.initial_mem, Or.inl trivial⟩
  have hasked : pairQuery owner h ∈ askedIn events := by
    rw [← hmatches.2, hp.result_eq]
    refine (List.mem_append.1 ((htally.mem_iff _).2 hanswered)).resolve_right fun hreused => ?_
    obtain ⟨p', t, hkind, -⟩ := htally.reused_yes _ hreused
    exact QueryKind.noConfusion hkind
  obtain ⟨i, hi, hmem⟩ := hrun.exists_askedBy hasked
  rwa [show i = 0 by omega] at hmem

/-- The two actions of the pair give their queries the same name, so that the verifier, asked about one
of them, reads the text of the other. -/
theorem asked_text_pair : ∃ events c before after program, ∃ q first : Query,
    pairClass.actionSet = .ok pairSetup.set ∧
    Run pairSetup (start pairSetup pairSetup.set.actions 1) events c ∧
    events = before ++ (some 0, .asks q program) :: after ∧
    program.fragments.filter (fun f => f.1 = some q.name) =
      [(some q.name, first.procedureText pairSetup.set pairSetup.code)] ∧
    first.procedureText pairSetup.set pairSetup.code ≠
      q.procedureText pairSetup.set pairSetup.code := by
  have hclass : pairClass.actionSet = .ok pairSetup.set := rfl
  obtain ⟨events, c, hrun, hasked⟩ := exists_run_pair
  let name := (pairQuery "A" pairAction_mem.1).name
  -- whichever query of this name is asked, the text is that of the first one
  have hreads : ∀ q ∈ askedBy 0 events, q.name = name → ∃ before after program first,
      events = before ++ (some 0, .asks q program) :: after ∧
      (askedBy 0 events).find? (fun q => q.name = name) = some first ∧
      program.fragments.filter (fun f => f.1 = some q.name) =
        [(some q.name, first.procedureText pairSetup.set pairSetup.code)] := by
    intro q hq hname
    obtain ⟨program, hx⟩ := mem_askedBy.1 hq
    obtain ⟨before, after, hevents⟩ := List.append_of_mem hx
    obtain ⟨first, hfirst, htext, -⟩ := hrun.asked_text hclass (fun a ha => ha) hevents
    refine ⟨before, after, program, first, hevents, ?_, htext⟩
    have hsplit : askedBy 0 events = (askedBy 0 before ++ [q]) ++ askedBy 0 after := by
      rw [hevents, askedBy, history_append, List.filterMap_append, List.append_assoc]
      rfl
    rw [hsplit, List.find?_append, ← hname, hfirst]
    rfl
  obtain ⟨before, after, program, first, hevents, hfirst, htext⟩ := hreads _ (hasked "A" _) rfl
  by_cases hown : first.procedureText pairSetup.set pairSetup.code =
      (pairQuery "A" pairAction_mem.1).procedureText pairSetup.set pairSetup.code
  · obtain ⟨before', after', program', first', hevents', hfirst', htext'⟩ :=
      hreads _ (hasked "B" pairAction_mem.2) (by decide +kernel)
    obtain rfl : first' = first := Option.some.inj (hfirst'.symm.trans hfirst)
    refine ⟨events, c, before', after', program', _, first', hclass, hrun, hevents', htext', ?_⟩
    rw [hown]
    decide +kernel
  · exact ⟨events, c, before, after, program, _, first, hclass, hrun, hevents, htext, hown⟩

end Crew

end Enabledness
