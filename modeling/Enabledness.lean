import Enabledness.Action
import Enabledness.ActionSet
import Enabledness.Automaton
import Enabledness.Automaton.Dot
import Enabledness.ClassTable
import Enabledness.Collection.Roster
import Enabledness.Collection.SortedMap
import Enabledness.Collection.SortedSet
import Enabledness.Collection.Table
import Enabledness.CommandLine
import Enabledness.CommandLine.Request
import Enabledness.CommandLine.Summary
import Enabledness.CommandLine.Word
import Enabledness.Construction
import Enabledness.Construction.Fault
import Enabledness.Description
import Enabledness.Exploration
import Enabledness.Exploration.Rank
import Enabledness.Json.Magnitude
import Enabledness.Json.Reader
import Enabledness.Json.Token
import Enabledness.Json.Value
import Enabledness.Main
import Enabledness.Proofs.Outcome
import Enabledness.Operation
import Enabledness.Procedure
import Enabledness.Program
import Enabledness.Query
import Enabledness.Query.Answer
import Enabledness.Query.Name
import Enabledness.ResultLog
import Enabledness.ResultLog.Report
import Enabledness.State
import Enabledness.Text.Character
import Enabledness.Text.Duration
import Enabledness.Text.Search
import Enabledness.Text.Utf8
import Enabledness.Verifier
import Enabledness.Verifier.Concrete
import Enabledness.Verifier.Corral
import Enabledness.WorkQueue
import Enabledness.Proofs.Books
import Enabledness.Proofs.Exploring
import Enabledness.Proofs.Chart
import Enabledness.Proofs.Settling
import Enabledness.Proofs.Run
import Enabledness.Proofs.ClassActions
import Enabledness.Proofs.LeastFixpoint
import Enabledness.Proofs.ConcreteSteps
import Enabledness.Proofs.ConcreteAutomata
import Enabledness.Proofs.ScheduleIndependence
import Enabledness.Proofs.Chores
import Enabledness.Proofs.Crew
import Enabledness.Proofs.CrewTurns
import Enabledness.Proofs.CrewCount
import Enabledness.Proofs.CrewBooks
import Enabledness.Proofs.CrewEnding
import Enabledness.Proofs.QueryNames
import Enabledness.Proofs.AskedText
import Enabledness.Proofs.AnyOrder
import Enabledness.Proofs.CrewStranded
import Enabledness.Proofs.Questions
import Enabledness.Proofs.SettledOnce
import Enabledness.Proofs.Termination
import Enabledness.Proofs.QueueAccounting
import Enabledness.Proofs.DiscoveryTree
import Enabledness.Proofs.ProcedureRuns
import Enabledness.Proofs.QueryMeaning
import Enabledness.Proofs.ProcedureText
import Enabledness.Proofs.ProcedureMeaning
import Enabledness.Proofs.JsonText
import Enabledness.Proofs.DescriptionText
import Enabledness.Proofs.ProcedureLines
import Enabledness.Proofs.ClassRules
import Enabledness.Proofs.Scheduling
import Enabledness.Proofs.GlobalNecessity
import Enabledness.Proofs.ProcedureScope
import Enabledness.Proofs.AutomatonGrowth
import Enabledness.Proofs.DotReading
import Enabledness.Proofs.LogHistory
import Enabledness.Proofs.ReportAgreement
import Enabledness.Proofs.Announcements
import Enabledness.Proofs.PowerSet
import Enabledness.Proofs.CanonicalStates
import Enabledness.Proofs.DueAnswers
import Enabledness.Proofs.ProgramGrowth
