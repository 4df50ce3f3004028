import Enabledness.ResultLog

/-!
# Reports

The result log as text: the global necessities first, then the visited states in order, each with
all outcomes of its actions.  A log that holds outcomes of a state that was never visited has no
report (`ResultLog.report?`).
-/

namespace Enabledness

namespace Report

/-- Some tab stops. -/
def tabs (n : Nat) : String := String.ofList (List.replicate n '\t')

/-- The lines of one outcome under a label, at an indentation. -/
def entryLines (indent : Nat) (label : String) (o : Option Outcome) : List String :=
  [tabs indent ++ label ++ ":"] ++
    (match o with
      | some o =>
        [tabs (indent + 1) ++ "Answer: " ++ o.answer.text, tabs (indent + 1) ++ "Command:",
          tabs (indent + 2) ++ o.run.command]
      | none => [tabs (indent + 1) ++ "Not present"]) ++
    [""]

/-- The lines about one tested action. -/
def testedLines (indent : Nat) (p : PairLog) (tested : Action) : List String :=
  [tabs indent ++ "Tested action: " ++ tested.text] ++
    (if p.isInconsistent tested then [tabs (indent + 1) ++ "Inconsistent"] else []) ++
    entryLines (indent + 1) "Enabled" (p.enabled.get? tested) ++
    entryLines (indent + 1) "Disabled" (p.disabled.get? tested) ++ [""]

/-- The lines about all tested actions. -/
def necessityLines (indent : Nat) (p : PairLog) : List String :=
  p.testedActions.flatMap (testedLines indent p)

/-- The lines about one target state. -/
def targetLines (p : PairLog) (target : State) : List String :=
  ["\t\t\tTarget state: " ++ target.text] ++
    (if target ∈ p.enqueued then ["\t\t\t\tEnqueued"] else []) ++
    entryLines 4 "Not throwing" (p.normal.get? target) ++
    entryLines 4 "Throwing" (p.exceptional.get? target)

/-- The lines about one main action of a state. -/
def pairLines (main : Action) (p : PairLog) : List String :=
  ["", "", "\tAction: " ++ main.text, "", "\t\tInvariant breakage:", ""] ++
    entryLines 3 "Not throwing" p.normalInvariant ++
    entryLines 3 "Throwing" p.exceptionalInvariant ++
    ["", "", "\t\tNecessary actions:", ""] ++ necessityLines 3 p ++
    ["", "", "\t\tTransitions:"] ++ p.targets.flatMap (targetLines p) ++ ["", ""]

/-- The lines about the global table. -/
def globalLines (l : ResultLog) : List String :=
  ["Global necessarily enabled/disabled queries: ", "", ""] ++
    (l.global.entries.flatMap fun e => ("\tMain Action: " ++ e.1.text) :: necessityLines 2 e.2) ++
    ["", ""]

/-- The lines about one visited state. -/
def stateLines (l : ResultLog) (s : State) : List String :=
  ["", "", "", "", "State: " ++ s.text] ++
    match l.perState.get? s with
    | some pairs => pairs.entries.flatMap fun e => pairLines e.1 e.2
    | none => []

end Report

namespace ResultLog

/-- The lines of the report. -/
def reportLines (l : ResultLog) : List String :=
  Report.globalLines l ++ ["Normal queries: "] ++ l.visited.toList.flatMap (Report.stateLines l)

/-- The report, or the first state with outcomes that was never visited. -/
def report? (l : ResultLog) : Except State String :=
  match l.unvisited? with
  | some s => .error s
  | none => .ok (String.join (l.reportLines.map (· ++ "\n")))

end ResultLog

end Enabledness
