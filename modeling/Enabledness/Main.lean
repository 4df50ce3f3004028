import Enabledness.CommandLine

/-!
# The program

The command line on the real platform.  Programs cannot be started from here, so every construction
that has something to ask ends with a verifier that could not be launched.
-/

namespace Enabledness.CommandLine

/-- The reason of a failure, as the system words it. -/
def reasonOf : IO.Error → String
  | .noFileOrDirectory .. => "No such file or directory (os error 2)"
  | .permissionDenied .. => "Permission denied (os error 13)"
  | e => toString e

/-- The result of an action, or the reason why it failed. -/
def attempt {α : Type} (action : IO α) : IO (Except String α) := do
  try
    return .ok (← action)
  catch e => return .error (reasonOf e)

/-- The name of the program file of a run. -/
def programName (start : Nat) : String := "epa-" ++ Nat.repr start ++ ".bpl"

/-- Why a new file cannot be created, if so.  The file is removed again. -/
def probe (path : String) : IO (Option String) := do
  match ← attempt (IO.FS.Handle.mk path .writeNew) with
  | .ok _ =>
    IO.FS.removeFile path
    return none
  | .error reason => return some reason

/-- The platform of a program that was started at some time, in nanoseconds. -/
def systemPlatform (start : Nat) : Platform IO where
  fetch path := attempt do return (← IO.FS.readBinFile path).toList
  store path text := attempt (IO.FS.writeFile path text)
  programFault
    | none => return none
    | some dir => probe (dir ++ "/" ++ programName start)
  programPath := programName start
  launch _ _ := .notStarted "programs cannot be started from here"
  elapsed := do return (Duration.mk ((← IO.monoNanosNow) - start)).inSeconds
  print text := do (← IO.getStdout).putStr text

end Enabledness.CommandLine

/-- Run the command line with the arguments of the program. -/
def main (arguments : List String) : IO UInt32 := do
  let start ← IO.monoNanosNow
  let ending ← Enabledness.CommandLine.run (Enabledness.CommandLine.systemPlatform start) arguments
  (← IO.getStderr).putStr ending.complaint
  return ending.exitCode
