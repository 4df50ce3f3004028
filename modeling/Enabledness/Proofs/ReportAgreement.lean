import Mathlib.Data.List.Nodup
import Mathlib.Data.List.Perm.Basic
import Enabledness.ResultLog.Report
import Enabledness.Proofs.LogHistory
import Enabledness.Proofs.ProcedureText

/-!
# Reports and inconsistencies agree

The report of a result log, read line by line, against the tables of the log and the list of its
inconsistencies.

* `ResultLog.report?_eq_error_iff` : there is no report when a state with entries was not visited, and
  the first such state is named.
* `ResultLog.mem_inconsistencies_iff`, `ResultLog.nodup_inconsistencies` : the inconsistencies are the
  questions that were answered YES both ways, each once.
* `Report.Shows` : what a list of lines shows, part by part (`shows_reportLines`).
* `ResultLog.report_agrees` : a report shows the visited states in order, and marks each inconsistency.
-/

namespace Enabledness

/-! ## When there is a report -/

namespace ResultLog

variable {l : ResultLog}

/-- The first state in the order of the table that was not visited stands for the missing report. -/
theorem report?_eq_error_iff {s : State} : l.report? = .error s ↔
    ∃ before rest, l.perState.keys = before ++ s :: rest ∧ s ∉ l.visited ∧
      ∀ x ∈ before, x ∈ l.visited := by
  have hfind : l.report? = .error s ↔ l.unvisited? = some s := by
    unfold report?
    cases l.unvisited? <;> simp
  rw [hfind, unvisited?, List.find?_eq_some_iff_append]
  constructor
  · rintro ⟨hs, before, rest, hkeys, hbefore⟩
    exact ⟨before, rest, hkeys, by simpa using hs, fun x hx => by simpa using hbefore x hx⟩
  · rintro ⟨before, rest, hkeys, hs, hbefore⟩
    exact ⟨by simpa using hs, before, rest, hkeys, fun x hx => by simpa using hbefore x hx⟩

/-- There is a report if all states with entries were visited. -/
theorem report?_eq_ok_iff {text : String} : l.report? = .ok text ↔
    (∀ s ∈ l.perState.keys, s ∈ l.visited) ∧ text = String.join (l.reportLines.map (· ++ "\n")) := by
  have hnone : l.unvisited? = none ↔ ∀ s ∈ l.perState.keys, s ∈ l.visited := by
    simp [unvisited?, List.find?_eq_none]
  unfold report?
  cases h : l.unvisited? with
  | none => simp [← hnone, h, eq_comm]
  | some s => simp [← hnone, h]

end ResultLog

/-! ## What the inconsistencies are -/

theorem PairLog.isInconsistent_iff {pair : PairLog} {tested : Action} :
    pair.isInconsistent tested = true ↔
      ∀ p, ((pair.necessities p).get? tested).map Outcome.answer = some .yes := by
  have hboth : ∀ P : Polarity → Prop, (∀ p, P p) ↔ P .enabled ∧ P .disabled := fun P =>
    ⟨fun h => ⟨h _, h _⟩, fun h p => by cases p <;> simp [h]⟩
  rw [hboth, PairLog.isInconsistent, areInconsistent, Bool.and_eq_true, decide_eq_true_iff,
    decide_eq_true_iff]
  rfl

/-- The slot of an inconsistency for a polarity. -/
def Inconsistency.slot (i : Inconsistency) (p : Polarity) : Slot :=
  match i.state with
  | none => .global i.main i.tested p
  | some s => .necessity s i.main i.tested p

namespace ResultLog

theorem mem_pairInconsistencies {place? : Option State} {main : Action} {pair : PairLog}
    {i : Inconsistency} : i ∈ pairInconsistencies place? main pair ↔
      i.state = place? ∧ i.main = main ∧ pair.isInconsistent i.tested = true := by
  unfold pairInconsistencies
  rw [List.mem_map]
  constructor
  · rintro ⟨tested, htested, rfl⟩
    exact ⟨rfl, rfl, (List.mem_filter.1 htested).2⟩
  · rintro ⟨rfl, rfl, hi⟩
    refine ⟨i.tested, List.mem_filter.2 ⟨?_, hi⟩, rfl⟩
    -- what is answered both ways stands in both tables
    obtain ⟨o, ho, -⟩ := Option.map_eq_some_iff.1 (PairLog.isInconsistent_iff.1 hi .enabled)
    rw [PairLog.testedActions, Roster.toList_ofList, List.mem_eraseDups]
    exact List.mem_append_left _ (Table.mem_keys_of_get? ho)

variable (l : ResultLog)

/-- The inconsistencies among the outcomes of a table of main actions. -/
def tableInconsistencies (place? : Option State) (pairs : Table Action PairLog) :
    List Inconsistency :=
  pairs.entries.flatMap fun e => pairInconsistencies place? e.1 e.2

theorem inconsistencies_eq : l.inconsistencies = tableInconsistencies none l.global ++
    l.perState.entries.flatMap fun e => tableInconsistencies (some e.1) e.2 := rfl

theorem mem_tableInconsistencies {place? : Option State} {pairs : Table Action PairLog}
    {i : Inconsistency} : i ∈ tableInconsistencies place? pairs ↔
      i.state = place? ∧ ∃ pair, pairs.get? i.main = some pair ∧
        pair.isInconsistent i.tested = true := by
  simp only [tableInconsistencies, List.mem_flatMap, mem_pairInconsistencies, Prod.exists,
    ← Table.get?_eq_some_iff]
  constructor
  · rintro ⟨main, pair, hpair, hstate, rfl, hi⟩
    exact ⟨hstate, pair, hpair, hi⟩
  · rintro ⟨hstate, pair, hpair, hi⟩
    exact ⟨i.main, pair, hpair, hstate, rfl, hi⟩

/-- What is found for a tested action, if anything is known about the main action. -/
theorem exists_isInconsistent_iff (pair? : Option PairLog) (tested : Action) :
    (∃ pair, pair? = some pair ∧ pair.isInconsistent tested = true) ↔
      ∀ p, (pair?.bind fun pair => (pair.necessities p).get? tested).map Outcome.answer =
        some .yes := by
  cases pair? with
  | none => simpa using ⟨Polarity.enabled⟩
  | some pair => simp [PairLog.isInconsistent_iff]

/-- **A question is inconsistent if it was answered YES both ways.** -/
theorem mem_inconsistencies_iff {i : Inconsistency} : i ∈ l.inconsistencies ↔
    ∀ p, (l.found? (i.slot p)).map Outcome.answer = some .yes := by
  obtain ⟨place?, main, tested⟩ := i
  rw [inconsistencies_eq, List.mem_append, List.mem_flatMap]
  simp only [mem_tableInconsistencies, Prod.exists, ← Table.get?_eq_some_iff]
  cases place? with
  | none =>
    refine Iff.trans ?_ (exists_isInconsistent_iff (l.global.get? main) tested)
    simp
  | some s =>
    refine Iff.trans ?_ (exists_isInconsistent_iff (l.pair? s main) tested)
    constructor
    · rintro (⟨hnone, -⟩ | ⟨s', pairs, hpairs, hs, pair, hpair, hi⟩)
      · simp at hnone
      · obtain rfl := Option.some.inj hs
        exact ⟨pair, by simp [pair?, hpairs, hpair], hi⟩
    · rintro ⟨pair, hpair, hi⟩
      obtain ⟨pairs, hpairs, hpair⟩ := Option.bind_eq_some_iff.1 hpair
      exact Or.inr ⟨s, pairs, hpairs, rfl, pair, hpair, hi⟩

/-- Parts of a list whose members tell which part they belong to repeat nothing. -/
theorem nodup_flatMap_of_key {α β κ : Type} {f : α → List β} (key : α → κ) (keyOf : β → κ)
    {parts : List α} (hkeys : (parts.map key).Nodup) (hnodup : ∀ a ∈ parts, (f a).Nodup)
    (hkey : ∀ a ∈ parts, ∀ b ∈ f a, keyOf b = key a) : (parts.flatMap f).Nodup := by
  rw [List.nodup_flatMap]
  refine ⟨hnodup, ?_⟩
  have hpairwise := List.pairwise_map.1 hkeys
  refine hpairwise.imp_of_mem fun ha hb hne x hxa hxb => hne ?_
  rw [← hkey _ ha x hxa, hkey _ hb x hxb]

theorem nodup_tableInconsistencies (place? : Option State) (pairs : Table Action PairLog) :
    (tableInconsistencies place? pairs).Nodup := by
  refine nodup_flatMap_of_key Prod.fst Inconsistency.main ?_ ?_ ?_
  · rw [Table.map_fst_entries]
    exact pairs.nodup_keys
  · intro e _
    refine List.Nodup.map ?_ ((Roster.nodup _).filter _)
    intro t t' h
    exact congrArg Inconsistency.tested h
  · intro e _ i hi
    exact (mem_pairInconsistencies.1 hi).2.1

/-- No inconsistency is listed twice. -/
theorem nodup_inconsistencies : l.inconsistencies.Nodup := by
  rw [inconsistencies_eq, List.nodup_append]
  refine ⟨nodup_tableInconsistencies none l.global, ?_, ?_⟩
  · refine nodup_flatMap_of_key (fun e => some e.1) Inconsistency.state ?_ ?_ ?_
    · have hkeys : l.perState.entries.map (fun e => some e.1) = l.perState.keys.map some := by
        rw [← Table.map_fst_entries, List.map_map]
        rfl
      rw [hkeys]
      exact l.perState.nodup_keys.map fun _ _ h => Option.some.inj h
    · exact fun e _ => nodup_tableInconsistencies (some e.1) e.2
    · exact fun e _ i hi => (mem_tableInconsistencies.1 hi).1
  · -- the place tells the two tables apart
    intro i hi j hj hij
    obtain ⟨e, -, hj⟩ := List.mem_flatMap.1 hj
    have hnone := (mem_tableInconsistencies.1 hi).1
    rw [hij, (mem_tableInconsistencies.1 hj).1] at hnone
    simp at hnone

end ResultLog

/-! ## Lines -/

namespace Report

/-- The lines of a text. -/
def lines (text : String) : List String := (text.toList.splitOn '\n').map String.ofList

/-- The text has no line break. -/
def IsOneLine (text : String) : Prop := '\n' ∉ text.toList

instance (text : String) : Decidable (IsOneLine text) :=
  inferInstanceAs (Decidable ('\n' ∉ text.toList))

/-- The line names a state. -/
def isStateLine (line : String) : Bool := "State: ".toList.isPrefixOf line.toList

/-- The line marks an inconsistency: three or four tab stops and a word. -/
def isMark (line : String) : Bool :=
  line = tabs 3 ++ "Inconsistent" || line = tabs 4 ++ "Inconsistent"

/-- The line neither names a state nor marks an inconsistency. -/
def IsOther (line : String) : Prop :=
  IsOneLine line ∧ isStateLine line = false ∧ isMark line = false

instance (line : String) : Decidable (IsOther line) :=
  inferInstanceAs (Decidable (_ ∧ _ ∧ _))

theorem flatMap_nothing {α β : Type} (l : List α) : l.flatMap (fun _ => ([] : List β)) = [] :=
  List.flatMap_eq_nil_iff.2 fun _ _ => rfl

/-- What a list of lines shows: it has no other line breaks, names these states and has these marks. -/
structure Shows (ls states marks : List String) : Prop where
  isOneLine : ∀ line ∈ ls, IsOneLine line
  states_eq : ls.filter isStateLine = states
  marks_eq : ls.filter isMark = marks

namespace Shows

theorem append {ls ls' states states' marks marks' : List String} (h : Shows ls states marks)
    (h' : Shows ls' states' marks') : Shows (ls ++ ls') (states ++ states') (marks ++ marks') where
  isOneLine line hline := (List.mem_append.1 hline).elim (h.isOneLine line) (h'.isOneLine line)
  states_eq := by rw [List.filter_append, h.states_eq, h'.states_eq]
  marks_eq := by rw [List.filter_append, h.marks_eq, h'.marks_eq]

theorem flatMap {α : Type} {l : List α} {ls states marks : α → List String}
    (h : ∀ a ∈ l, Shows (ls a) (states a) (marks a)) :
    Shows (l.flatMap ls) (l.flatMap states) (l.flatMap marks) := by
  induction l with
  | nil => exact ⟨by simp, rfl, rfl⟩
  | cons a l ih =>
    obtain ⟨ha, hl⟩ := List.forall_mem_cons.1 h
    simp only [List.flatMap_cons]
    exact ha.append (ih hl)

theorem flatMap_marks {α : Type} {l : List α} {ls marks : α → List String}
    (h : ∀ a ∈ l, Shows (ls a) [] (marks a)) : Shows (l.flatMap ls) [] (l.flatMap marks) := by
  rw [← flatMap_nothing l]
  exact flatMap h

/-- Other lines show nothing. -/
theorem other {ls : List String} (h : ∀ line ∈ ls, IsOther line) : Shows ls [] [] where
  isOneLine line hline := (h line hline).1
  states_eq := List.filter_eq_nil_iff.2 fun line hline => by simp [(h line hline).2.1]
  marks_eq := List.filter_eq_nil_iff.2 fun line hline => by simp [(h line hline).2.2]

end Shows

theorem toList_tabs (n : Nat) : (tabs n).toList = List.replicate n '\t' := String.toList_ofList

theorem isOneLine_append {text text' : String} (h : IsOneLine text) (h' : IsOneLine text') :
    IsOneLine (text ++ text') := by
  unfold IsOneLine at *
  rw [String.toList_append, List.mem_append]
  exact fun hmem => hmem.elim h h'

theorem isOneLine_tabs (n : Nat) : IsOneLine (tabs n) := by
  unfold IsOneLine
  rw [toList_tabs, List.mem_replicate]
  rintro ⟨-, heq⟩
  simp at heq

theorem isStateLine_tabs {n : Nat} (hn : 0 < n) (text : String) :
    isStateLine (tabs n ++ text) = false := by
  obtain ⟨m, rfl⟩ := Nat.exists_eq_add_of_lt hn
  simp [isStateLine, toList_tabs, List.replicate_succ, List.isPrefixOf]

theorem isMark_eq_false_iff {line : String} : isMark line = false ↔
    ∀ k ∈ [3, 4], line.toList ≠ List.replicate k '\t' ++ "Inconsistent".toList := by
  have heq : ∀ k, line = tabs k ++ "Inconsistent" ↔
      line.toList = List.replicate k '\t' ++ "Inconsistent".toList := by
    intro k
    rw [← toList_tabs, ← String.toList_append, String.toList_inj]
  simp only [isMark, Bool.or_eq_false_iff, decide_eq_false_iff_not, heq, List.forall_mem_cons,
    List.not_mem_nil, false_implies, implies_true, and_true, ne_eq]

/-- The text starts with neither a tab stop nor the first letter of a mark. -/
def startsOther (text : String) : Bool := text.toList.head?.any fun c => c ≠ '\t' && c ≠ 'I'

theorem startsOther_append {text : String} (h : startsOther text = true) (text' : String) :
    startsOther (text ++ text') = true := by
  unfold startsOther at *
  rw [String.toList_append]
  cases hcs : text.toList with
  | nil => simp [hcs] at h
  | cons c cs => simpa [hcs] using h

/-- A line that starts, after some tab stops, with another letter than a mark. -/
theorem isOther_tabs {n : Nat} {text : String} (hn : 0 < n) (hstart : startsOther text = true)
    (htext : IsOneLine text) : IsOther (tabs n ++ text) := by
  refine ⟨isOneLine_append (isOneLine_tabs n) htext, isStateLine_tabs hn text, ?_⟩
  have hdrop : ∀ (k : Nat) (c : Char) (cs : List Char), c ≠ '\t' →
      (List.replicate k '\t' ++ c :: cs).dropWhile (· = '\t') = c :: cs := by
    intro k c cs hc
    rw [List.dropWhile_append_of_pos (by simp), List.dropWhile_cons_of_neg (by simpa using hc)]
  rw [isMark_eq_false_iff]
  intro k _ heq
  cases hcs : text.toList with
  | nil => simp [startsOther, hcs] at hstart
  | cons c cs =>
    obtain ⟨htab, hletter⟩ : c ≠ '\t' ∧ c ≠ 'I' := by simpa [startsOther, hcs] using hstart
    rw [String.toList_append, toList_tabs, hcs] at heq
    have hrest := congrArg (List.dropWhile (· = '\t')) heq
    have hmark : "Inconsistent".toList = 'I' :: "nconsistent".toList := rfl
    rw [hdrop n c cs htab, hmark, hdrop k 'I' _ (by decide)] at hrest
    exact hletter (List.cons.inj hrest).1

/-- A line behind five tab stops or more. -/
theorem isOther_deep {n : Nat} {text : String} (hn : 5 ≤ n) (htext : IsOneLine text) :
    IsOther (tabs n ++ text) := by
  refine ⟨isOneLine_append (isOneLine_tabs n) htext, isStateLine_tabs (by omega) text, ?_⟩
  obtain ⟨m, rfl⟩ := Nat.exists_eq_add_of_le hn
  have hfive : List.replicate (5 + m) '\t' = ['\t', '\t', '\t', '\t', '\t'] ++ List.replicate m '\t' := by
    rw [List.replicate_add]
    rfl
  rw [isMark_eq_false_iff, String.toList_append, toList_tabs, hfive]
  intro k hk
  rcases List.mem_cons.1 hk with rfl | hk
  · simp [List.replicate_succ]
  · obtain rfl := List.mem_singleton.1 hk
    simp [List.replicate_succ]

/-- A line of some tab stops, a label and a text behind it. -/
theorem isOther_label (n : Nat) (label : String) {start text : String} (hstart : start = tabs n ++ label)
    (hn : 0 < n) (hlabel : startsOther label = true) (hone : IsOneLine label)
    (htext : IsOneLine text) : IsOther (start ++ text) := by
  rw [hstart, String.append_assoc]
  exact isOther_tabs hn (startsOther_append hlabel text) (isOneLine_append hone htext)

/-! ## What the parts of a report show -/

theorem shows_entryLines {indent : Nat} (hindent : 3 ≤ indent) {label : String}
    (hlabel : startsOther label = true) (hone : IsOneLine label) {o : Option Outcome}
    (ho : ∀ x ∈ o, IsOneLine x.run.command) : Shows (entryLines indent label o) [] [] := by
  apply Shows.other
  have hfirst : IsOther (tabs indent ++ label ++ ":") :=
    isOther_label indent label rfl (by omega) hlabel hone (by decide)
  have hblank : IsOther "" := by decide
  cases o with
  | none =>
    have hmissing : IsOther (tabs (indent + 1) ++ "Not present") :=
      isOther_tabs (by omega) (by decide) (by decide)
    simp only [entryLines, List.cons_append, List.nil_append, List.forall_mem_cons]
    exact ⟨hfirst, hmissing, hblank, by simp⟩
  | some x =>
    have hanswer : IsOther (tabs (indent + 1) ++ "Answer: " ++ x.answer.text) :=
      isOther_label (indent + 1) "Answer: " rfl (by omega) (by decide) (by decide)
        (by cases x.answer <;> decide)
    have hcommand : IsOther (tabs (indent + 1) ++ "Command:") :=
      isOther_tabs (by omega) (by decide) (by decide)
    have hrun : IsOther (tabs (indent + 2) ++ x.run.command) :=
      isOther_deep (by omega) (ho x rfl)
    simp only [entryLines, List.cons_append, List.nil_append, List.forall_mem_cons]
    exact ⟨hfirst, hanswer, hcommand, hrun, hblank, by simp⟩

end Report

/-- The text that a report shows for a kind of question: that of the tested action or the target. -/
def QueryKind.labels : QueryKind → List String
  | .invariant _ => []
  | .transition _ target => [target.text]
  | .necessity _ _ tested => [tested.text]

/-- What is stored for a kind of question is shown without line breaks. -/
def PairLog.IsUnbrokenAt (pair : PairLog) (kind : QueryKind) : Prop :=
  ∀ o, pair.outcome? kind = some o →
    (∀ text ∈ kind.labels, Report.IsOneLine text) ∧ Report.IsOneLine o.run.command

/-- No recorded command, and no text of a state or an action in the log, has a line break. -/
structure ResultLog.IsUnbroken (l : ResultLog) : Prop where
  /-- The visited states. -/
  visited : ∀ s ∈ l.visited, Report.IsOneLine s.text
  /-- The main actions. -/
  main : ∀ place?, ∀ a ∈ l.mains place?, Report.IsOneLine a.text
  /-- The tested actions, the targets and the commands. -/
  slot : ∀ slot o, l.found? slot = some o →
    (∀ text ∈ slot.kind.labels, Report.IsOneLine text) ∧ Report.IsOneLine o.run.command

namespace Report

theorem map_filter_eq_flatMap {α β : Type} (f : α → β) (p : α → Bool) (l : List α) :
    (l.filter p).map f = l.flatMap fun a => if p a then [f a] else [] := by
  induction l with
  | nil => rfl
  | cons a l ih =>
    rw [List.flatMap_cons, ← ih, List.filter_cons]
    split <;> rfl

/-- The line that marks an inconsistency. -/
def markOf (i : Inconsistency) : String := tabs (if i.state = none then 3 else 4) ++ "Inconsistent"

theorem shows_mark {n : Nat} (hn : n = 3 ∨ n = 4) :
    Shows [tabs n ++ "Inconsistent"] [] [tabs n ++ "Inconsistent"] := by
  rcases hn with rfl | rfl
  · exact ⟨by decide, by decide, by decide⟩
  · exact ⟨by decide, by decide, by decide⟩

section Pair

variable {pair : PairLog}

theorem exists_outcome_of_tested {t : Action} (ht : t ∈ pair.testedActions) :
    ∃ p o, pair.outcome? (.necessity p .atSource t) = some o := by
  rw [PairLog.testedActions, Roster.toList_ofList, List.mem_eraseDups, List.mem_append] at ht
  rcases ht with ht | ht
  · exact ⟨.enabled, Option.isSome_iff_exists.1 (Table.mem_keys_iff.1 ht)⟩
  · exact ⟨.disabled, Option.isSome_iff_exists.1 (Table.mem_keys_iff.1 ht)⟩

theorem exists_outcome_of_target {s : State} (hs : s ∈ pair.targets) :
    ∃ c o, pair.outcome? (.transition c s) = some o := by
  rw [PairLog.targets, Roster.toList_ofList, List.mem_eraseDups, List.mem_append] at hs
  rcases hs with hs | hs
  · exact ⟨.normal, Option.isSome_iff_exists.1 (Table.mem_keys_iff.1 hs)⟩
  · exact ⟨.exceptional, Option.isSome_iff_exists.1 (Table.mem_keys_iff.1 hs)⟩

section Necessities

variable (h : ∀ p t, pair.IsUnbrokenAt (.necessity p .atSource t))

include h

/-- What is shown about a tested action is whether its answers are inconsistent. -/
theorem shows_testedLines {indent : Nat} (hindent : indent + 1 = 3 ∨ indent + 1 = 4) {t : Action}
    (ht : t ∈ pair.testedActions) : Shows (testedLines indent pair t) []
      (if pair.isInconsistent t then [tabs (indent + 1) ++ "Inconsistent"] else []) := by
  obtain ⟨p, o, ho⟩ := exists_outcome_of_tested ht
  have hone : IsOneLine t.text := (h p t o ho).1 _ (List.mem_singleton.2 rfl)
  have hhead : Shows [tabs indent ++ "Tested action: " ++ t.text] [] [] :=
    .other (List.forall_mem_singleton.2
      (isOther_label indent "Tested action: " rfl (by omega) (by decide) (by decide) hone))
  have hmark : Shows (if pair.isInconsistent t then [tabs (indent + 1) ++ "Inconsistent"] else []) []
      (if pair.isInconsistent t then [tabs (indent + 1) ++ "Inconsistent"] else []) := by
    split
    · exact shows_mark hindent
    · exact .other (by simp)
  have henabled : Shows (entryLines (indent + 1) "Enabled" (pair.enabled.get? t)) [] [] :=
    shows_entryLines (by omega) (by decide) (by decide) fun o ho =>
      (h .enabled t o ho).2
  have hdisabled : Shows (entryLines (indent + 1) "Disabled" (pair.disabled.get? t)) [] [] :=
    shows_entryLines (by omega) (by decide) (by decide) fun o ho =>
      (h .disabled t o ho).2
  have hblank : Shows [""] [] [] := .other (by decide)
  simpa [testedLines] using (((hhead.append hmark).append henabled).append hdisabled).append hblank

theorem shows_necessityLines {indent : Nat} (place? : Option State) (main : Action)
    (hindent : indent + 1 = if place? = none then 3 else 4) :
    Shows (necessityLines indent pair) []
      ((ResultLog.pairInconsistencies place? main pair).map markOf) := by
  have hdepth : indent + 1 = 3 ∨ indent + 1 = 4 := by
    rw [hindent]
    split <;> simp
  have hmarks : (ResultLog.pairInconsistencies place? main pair).map markOf =
      pair.testedActions.flatMap fun t =>
        if pair.isInconsistent t then [tabs (indent + 1) ++ "Inconsistent"] else [] := by
    rw [hindent, ResultLog.pairInconsistencies, List.map_map, map_filter_eq_flatMap]
    rfl
  rw [hmarks]
  exact Shows.flatMap_marks fun t ht => shows_testedLines h hdepth ht

end Necessities

theorem shows_targetLines (h : ∀ c s, pair.IsUnbrokenAt (.transition c s)) {target : State}
    (htarget : target ∈ pair.targets) : Shows (targetLines pair target) [] [] := by
  obtain ⟨c, o, ho⟩ := exists_outcome_of_target htarget
  have hone : IsOneLine target.text := (h c target o ho).1 _ (List.mem_singleton.2 rfl)
  have hhead : Shows ["\t\t\tTarget state: " ++ target.text] [] [] :=
    .other (List.forall_mem_singleton.2
      (isOther_label 3 "Target state: " rfl (by omega) (by decide) (by decide) hone))
  have hnote : Shows (if target ∈ pair.enqueued then ["\t\t\t\tEnqueued"] else []) [] [] := by
    split
    · exact .other (by decide)
    · exact .other (by simp)
  have hnormal : Shows (entryLines 4 "Not throwing" (pair.normal.get? target)) [] [] :=
    shows_entryLines (by omega) (by decide) (by decide) fun o ho =>
      (h .normal target o ho).2
  have hexceptional : Shows (entryLines 4 "Throwing" (pair.exceptional.get? target)) [] [] :=
    shows_entryLines (by omega) (by decide) (by decide) fun o ho =>
      (h .exceptional target o ho).2
  exact ((hhead.append hnote).append hnormal).append hexceptional

/-- What is shown about a main action of a state is which of its questions are inconsistent. -/
theorem shows_pairLines (h : ∀ kind, pair.IsUnbrokenAt kind) (s : State) {main : Action}
    (hmain : IsOneLine main.text) : Shows (pairLines main pair) []
      ((ResultLog.pairInconsistencies (some s) main pair).map markOf) := by
  have haction : IsOther ("\tAction: " ++ main.text) :=
    isOther_label 1 "Action: " rfl (by omega) (by decide) (by decide) hmain
  have hblank : IsOther "" := by decide
  have hinvariant : IsOther "\t\tInvariant breakage:" := by decide
  have hhead : Shows ["", "", "\tAction: " ++ main.text, "", "\t\tInvariant breakage:", ""] [] [] :=
    .other (by simp [haction, hblank, hinvariant])
  have hnormal : Shows (entryLines 3 "Not throwing" pair.normalInvariant) [] [] :=
    shows_entryLines (by omega) (by decide) (by decide) fun o ho =>
      (h (.invariant .normal) o ho).2
  have hexceptional : Shows (entryLines 3 "Throwing" pair.exceptionalInvariant) [] [] :=
    shows_entryLines (by omega) (by decide) (by decide) fun o ho =>
      (h (.invariant .exceptional) o ho).2
  have hnecessary : Shows ["", "", "\t\tNecessary actions:", ""] [] [] := .other (by decide)
  have htransitions : Shows ["", "", "\t\tTransitions:"] [] [] := .other (by decide)
  have htargets : Shows (pair.targets.flatMap (targetLines pair)) [] [] := by
    rw [← flatMap_nothing pair.targets]
    exact .flatMap fun target htarget => shows_targetLines (fun c s => h _) htarget
  have hend : Shows ["", ""] [] [] := .other (by decide)
  have hnecessities := shows_necessityLines (fun p t => h _) (some s) main rfl
  simpa [pairLines] using ((((((hhead.append hnormal).append hexceptional).append hnecessary).append
    hnecessities).append htransitions).append htargets).append hend

end Pair

end Report

/-- The inconsistencies of a state, if it has entries. -/
def ResultLog.stateInconsistencies (l : ResultLog) (s : State) : List Inconsistency :=
  match l.perState.get? s with
  | some pairs => tableInconsistencies (some s) pairs
  | none => []

namespace Report

open ResultLog

variable {l : ResultLog} (h : l.IsUnbroken)

include h

theorem shows_globalLines :
    Shows (globalLines l) [] ((tableInconsistencies none l.global).map markOf) := by
  have hhead : Shows ["Global necessarily enabled/disabled queries: ", "", ""] [] [] :=
    .other (by decide)
  have hend : Shows ["", ""] [] [] := .other (by decide)
  have hentries : Shows (l.global.entries.flatMap fun e =>
      ("\tMain Action: " ++ e.1.text) :: necessityLines 2 e.2) []
      ((tableInconsistencies none l.global).map markOf) := by
    rw [tableInconsistencies, List.map_flatMap]
    refine .flatMap_marks fun e he => ?_
    have hget : l.global.get? e.1 = some e.2 := Table.get?_eq_some_iff.2 he
    have hmain := h.main none e.1 (Table.mem_keys_of_get? hget)
    have hpair : ∀ p t, e.2.IsUnbrokenAt (.necessity p .atSource t) := by
      intro p t o ho
      refine h.slot (.global e.1 t p) o ?_
      rw [found?_eq_slot?, Slot.place?, Slot.main, slot?, hget, Option.bind_some]
      exact ho
    have hfirst : Shows ["\tMain Action: " ++ e.1.text] [] [] :=
      .other (List.forall_mem_singleton.2
        (isOther_label 1 "Main Action: " rfl (by omega) (by decide) (by decide) hmain))
    exact hfirst.append (shows_necessityLines hpair none e.1 rfl)
  simpa [globalLines] using (hhead.append hentries).append hend

/-- All slots of a state are shown without line breaks. -/
theorem isUnbrokenAt_of_pair? {s : State} {main : Action} {pair : PairLog}
    (hpair : l.pair? s main = some pair) (kind : QueryKind) : pair.IsUnbrokenAt kind := by
  intro o ho
  have hfound : ∀ slot : Slot, slot.place? = some s → slot.main = main →
      pair.outcome? slot.kind = some o → l.found? slot = some o := by
    intro slot hplace hmain hslot
    rw [found?_eq_slot?, hplace, hmain, slot?, hpair, Option.bind_some, hslot]
  cases kind with
  | invariant c => exact h.slot (.invariant s main c) o (hfound _ rfl rfl ho)
  | transition c target => exact h.slot (.transition s main target c) o (hfound _ rfl rfl ho)
  | necessity p _ t => exact h.slot (.necessity s main t p) o (hfound _ rfl rfl ho)

theorem shows_stateLines {s : State} (hs : s ∈ l.visited) :
    Shows (stateLines l s) ["State: " ++ s.text] ((l.stateInconsistencies s).map markOf) := by
  have hblanks : Shows ["", "", "", ""] [] [] := .other (by decide)
  have hname : Shows ["State: " ++ s.text] ["State: " ++ s.text] [] := by
    have hstate : isStateLine ("State: " ++ s.text) = true := by
      rw [isStateLine, String.toList_append, List.isPrefixOf_iff_prefix]
      exact List.prefix_append _ _
    have hmark : isMark ("State: " ++ s.text) = false := by
      rw [isMark_eq_false_iff, String.toList_append]
      simp [List.replicate_succ]
    refine ⟨List.forall_mem_singleton.2 (isOneLine_append (by decide) (h.visited s hs)), ?_, ?_⟩
    · simp [hstate]
    · simp [hmark]
  unfold stateLines stateInconsistencies
  cases hpairs : l.perState.get? s with
  | none => simpa using hblanks.append hname
  | some pairs =>
    have hentries : Shows (pairs.entries.flatMap fun e => pairLines e.1 e.2) []
        ((tableInconsistencies (some s) pairs).map markOf) := by
      rw [tableInconsistencies, List.map_flatMap]
      refine .flatMap_marks fun e he => ?_
      have hget : pairs.get? e.1 = some e.2 := Table.get?_eq_some_iff.2 he
      have hmem : e.1 ∈ l.mains (some s) := by
        rw [mains, hpairs, Option.getD_some]
        exact Table.mem_keys_of_get? hget
      have hat : l.pair? s e.1 = some e.2 := by simp [pair?, hpairs, hget]
      exact shows_pairLines (isUnbrokenAt_of_pair? h hat) s (h.main (some s) e.1 hmem)
    simpa using (hblanks.append hname).append hentries

/-- **What a report shows**: the visited states in order, and a mark for each inconsistency of the
global table and of a visited state. -/
theorem shows_reportLines :
    Shows l.reportLines (l.visited.toList.map fun s => "State: " ++ s.text)
      ((tableInconsistencies none l.global ++
        l.visited.toList.flatMap l.stateInconsistencies).map markOf) := by
  have htitle : Shows ["Normal queries: "] [] [] := .other (by decide)
  have hstates : Shows (l.visited.toList.flatMap (stateLines l))
      (l.visited.toList.map fun s => "State: " ++ s.text)
      ((l.visited.toList.flatMap l.stateInconsistencies).map markOf) := by
    rw [List.map_flatMap, List.map_eq_flatMap]
    exact .flatMap fun s hs => shows_stateLines h hs
  rw [List.map_append]
  simpa [reportLines] using ((shows_globalLines h).append htitle).append hstates

end Report

namespace ResultLog

/-- A table is read through any list of keys that holds its own. -/
theorem filterMap_perm_entries {κ β : Type} [Ord κ] [Std.TransOrd κ] {t : Table κ β} {keys : List κ}
    (hnodup : keys.Nodup) (hkeys : ∀ k ∈ t.keys, k ∈ keys) :
    (keys.filterMap fun k => (t.get? k).map (k, ·)).Perm t.entries := by
  have hfirst : ∀ (k k' : κ) (e : κ × β), e ∈ (t.get? k).map (k, ·) → e ∈ (t.get? k').map (k', ·) →
      k = k' := by
    intro k k' e hk hk'
    obtain ⟨v, -, rfl⟩ := Option.map_eq_some_iff.1 hk
    obtain ⟨v', -, heq⟩ := Option.map_eq_some_iff.1 hk'
    exact (Prod.mk.inj heq).1.symm
  refine (List.perm_ext_iff_of_nodup (hnodup.filterMap hfirst) (t.nodup_keys.filterMap hfirst)).2 ?_
  intro e
  simp only [List.mem_filterMap]
  constructor
  · rintro ⟨k, -, he⟩
    obtain ⟨v, hv, -⟩ := Option.map_eq_some_iff.1 he
    exact ⟨k, Table.mem_keys_of_get? hv, he⟩
  · rintro ⟨k, hk, he⟩
    exact ⟨k, hkeys k hk, he⟩

/-- If all states with entries were visited, the visited states have all inconsistencies. -/
theorem perm_inconsistencies {l : ResultLog} (hvisited : ∀ s ∈ l.perState.keys, s ∈ l.visited) :
    (tableInconsistencies none l.global ++
      l.visited.toList.flatMap l.stateInconsistencies).Perm l.inconsistencies := by
  have hread : l.visited.toList.flatMap l.stateInconsistencies =
      (l.visited.toList.filterMap fun s => (l.perState.get? s).map (s, ·)).flatMap fun e =>
        tableInconsistencies (some e.1) e.2 := by
    rw [List.filterMap_eq_flatMap_toList, List.flatMap_assoc]
    congr 1
    funext s
    unfold stateInconsistencies
    cases l.perState.get? s <;> simp
  rw [inconsistencies_eq, hread]
  refine List.Perm.append_left _ ?_
  exact (filterMap_perm_entries l.visited.nodup hvisited).flatMap fun _ _ => .refl _

/-- Lines with a line break after each are the lines of the text, up to the end of the last one. -/
theorem lines_join {ls : List String} (h : ∀ line ∈ ls, Report.IsOneLine line) :
    Report.lines (String.join (ls.map (· ++ "\n"))) = ls ++ [""] := by
  have htext : (String.join (ls.map (· ++ "\n"))).toList =
      (ls.map String.toList).flatMap (· ++ ['\n']) ++ [] := by
    rw [String.toList_join, List.flatMap_map, List.flatMap_map, List.append_nil]
    congr 1
    funext line
    exact String.toList_append
  have hbreaks : ∀ line ∈ ls.map String.toList, '\n' ∉ line := by
    intro line hline
    obtain ⟨text, htext, rfl⟩ := List.mem_map.1 hline
    exact h text htext
  rw [Report.lines, htext, Procedure.splitOn_flatMap_append hbreaks, List.map_append, List.map_map]
  simp [Function.comp_def]

/-- The global table comes first. -/
theorem exists_inconsistencies_append (l : ResultLog) : ∃ globals locals,
    l.inconsistencies = globals ++ locals ∧ (∀ i ∈ globals, i.state = none) ∧
      ∀ i ∈ locals, i.state ≠ none := by
  refine ⟨_, _, inconsistencies_eq l, fun i hi => (mem_tableInconsistencies.1 hi).1, fun i hi => ?_⟩
  obtain ⟨e, -, hi⟩ := List.mem_flatMap.1 hi
  rw [(mem_tableInconsistencies.1 hi).1]
  simp

/-- **Report and inconsistencies agree.**  For every log, whatever calls filled it:

* there is no report exactly when some state with entries was not visited, and the first such state in
  the order of the table is named;
* the inconsistencies are the questions, of the global table or of a state, that were answered YES both
  ways, each once, and those of the global table come first;
* if no command, state or action breaks a line, the lines of the report that name states are those of the
  visited states in order, and as many lines mark an inconsistency as there are inconsistencies. -/
theorem report_agrees (l : ResultLog) :
    ((∃ s, l.report? = .error s) ↔ ∃ s ∈ l.perState.keys, s ∉ l.visited) ∧
    (∀ s, l.report? = .error s ↔ ∃ before rest, l.perState.keys = before ++ s :: rest ∧
      s ∉ l.visited ∧ ∀ x ∈ before, x ∈ l.visited) ∧
    (∀ i, i ∈ l.inconsistencies ↔ ∀ p, (l.found? (i.slot p)).map Outcome.answer = some .yes) ∧
    l.inconsistencies.Nodup ∧
    (∃ globals locals, l.inconsistencies = globals ++ locals ∧ (∀ i ∈ globals, i.state = none) ∧
      ∀ i ∈ locals, i.state ≠ none) ∧
    ∀ text, l.report? = .ok text → l.IsUnbroken →
      (Report.lines text).filter Report.isStateLine =
        l.visited.toList.map (fun s => "State: " ++ s.text) ∧
      (Report.lines text).countP Report.isMark = l.inconsistencies.length := by
  refine ⟨?_, fun s => report?_eq_error_iff, fun i => mem_inconsistencies_iff l,
    nodup_inconsistencies l, exists_inconsistencies_append l, fun text htext hunbroken => ?_⟩
  · cases hreport : l.report? with
    | error s =>
      obtain ⟨before, rest, hkeys, hs, -⟩ := report?_eq_error_iff.1 hreport
      exact iff_of_true ⟨s, rfl⟩ ⟨s, by simp [hkeys], hs⟩
    | ok text =>
      have hall := (report?_eq_ok_iff.1 hreport).1
      simpa using hall
  · obtain ⟨hvisited, rfl⟩ := report?_eq_ok_iff.1 htext
    have hshows := Report.shows_reportLines hunbroken
    rw [lines_join hshows.isOneLine, List.filter_append, List.countP_append, hshows.states_eq,
      List.countP_eq_length_filter, hshows.marks_eq, List.length_map,
      (perm_inconsistencies hvisited).length_eq]
    have hlast : [""].filter Report.isStateLine = [] ∧ [""].countP Report.isMark = 0 := by decide
    rw [hlast.1, hlast.2, List.append_nil]
    exact ⟨rfl, rfl⟩

/-- The texts that an event leaves in the log. -/
def Event.texts : Event → List String
  | visited s => [s.text]
  | written slot o => slot.main.text :: o.run.command :: slot.kind.labels
  | discovered t => [t.action.text, t.target.text]

/-- A log is unbroken if all texts that it got are. -/
theorem Tells.isUnbroken {l : ResultLog} {past : List Event} (h : Tells l past)
    (htexts : ∀ e ∈ past, ∀ text ∈ e.texts, Report.IsOneLine text) : l.IsUnbroken where
  visited s hs := by
    rw [← Roster.mem_toList, h.visited, inserted, List.mem_eraseDups, List.mem_flatMap] at hs
    obtain ⟨e, he, hs⟩ := hs
    refine htexts e he _ ?_
    cases e <;> simp_all [Event.visits, Event.texts]
  main place? a ha := by
    rw [h.mains, inserted, List.mem_eraseDups, List.mem_flatMap] at ha
    obtain ⟨e, he, ha⟩ := ha
    refine htexts e he _ ?_
    cases e <;> simp_all [Event.mains, Event.texts]
  slot slot o ho := by
    rw [h.found, lastWritten] at ho
    obtain ⟨e, he, hwritten⟩ := List.mem_filterMap.1 (List.mem_of_getLast? ho)
    cases e with
    | visited s => simp [Event.writtenTo?] at hwritten
    | discovered t => simp [Event.writtenTo?] at hwritten
    | written slot' o' =>
      simp only [Event.writtenTo?] at hwritten
      split at hwritten
      · next heq =>
        subst heq
        obtain rfl := Option.some.inj hwritten
        exact ⟨fun text htext => htexts _ he _ (by simp [Event.texts, htext]),
          htexts _ he _ (by simp [Event.texts])⟩
      · simp at hwritten

/-- Both questions about the latch are answered YES, and the answers are taken over for a state. -/
def latchTwice : List Call :=
  [.register (latchGlobal .enabled).source, .register (latchLocal .enabled).source,
    .record (latchGlobal .enabled) ⟨.noCounterexample, "up"⟩,
    .record (latchGlobal .disabled) ⟨.noCounterexample, "down"⟩,
    .reuseGlobal (latchLocal .enabled), .reuseGlobal (latchLocal .disabled)]

/-- The report on the latch names two states and has two marks, one of them for the state. -/
theorem report_agrees_latch : (after latchTwice).IsUnbroken ∧ ∃ text,
    (after latchTwice).report? = .ok text ∧
      (Report.lines text).filter Report.isStateLine =
        ["State: \x7blift()\x7d", "State: \x7bdrop(), lift()\x7d"] ∧
      (Report.lines text).countP Report.isMark = 2 ∧
      ⟨some (latchLocal .enabled).source, latch "lift", latch "drop"⟩ ∈
        (after latchTwice).inconsistencies := by
  obtain ⟨-, -, hmem, -, -, hreport⟩ := report_agrees (after latchTwice)
  have hunbroken : (after latchTwice).IsUnbroken := (tells_after latchTwice).isUnbroken (by decide)
  have hok := (report?_eq_ok_iff (l := after latchTwice)).2 ⟨by decide, rfl⟩
  obtain ⟨hstates, hmarks⟩ := hreport _ hok hunbroken
  refine ⟨hunbroken, _, hok, hstates.trans (by decide), hmarks.trans (by decide), ?_⟩
  exact (hmem _).2 fun p => by cases p <;> decide

end ResultLog

end Enabledness
