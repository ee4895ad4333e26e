import PhasedWorkload.Console.Arguments
import PhasedWorkload.Console.Report
import PhasedWorkload.Plan.Reading
import PhasedWorkload.Run.Playing

/-! # Execution of commands

A command reads its file, makes the production that it describes, and for a run plays it. What goes
wrong is shown with its cause and ends the program with 1; a misuse of the arguments ends it with 2.
-/
namespace PhasedWorkload.Console

inductive FileFault where
  | missing
  | directory
  | notDirectory
  | forbidden
  | nameTooLong
  | notText
  | other (reason : String)
deriving DecidableEq, Repr

def FileFault.message : FileFault → String
  | .missing => "No such file or directory (os error 2)"
  | .directory => "Is a directory (os error 21)"
  | .notDirectory => "Not a directory (os error 20)"
  | .forbidden => "Permission denied (os error 13)"
  | .nameTooLong => "File name too long (os error 36)"
  | .notText => "stream did not contain valid UTF-8"
  | .other reason => reason

structure Output where
  exit : Nat := 0
  stdout : String := ""
  stderr : String := ""
deriving DecidableEq, Repr

namespace Output

def misuse : Output := { exit := 2, stderr := helpText }

/-- An error with its cause, whose later lines are indented like the first. -/
def failure (what cause : String) : Output where
  exit := 1
  stderr := "Error: " ++ what ++ "\n\nCaused by:\n    " ++ "\n    ".intercalate (cause.splitOn "\n") ++ "\n"

end Output

def fileName? (path : String) : Option String :=
  match (path.splitOn "/").filter fun part => part ≠ "" ∧ part ≠ "." with
  | [] => none
  | parts => parts.getLast?.filter (· ≠ "..")

/-- What stands after the last point of a file's name; a point at the front does not count. -/
def extension? (path : String) : Option String :=
  (fileName? path).bind fun name =>
    match name.splitOn "." with
    | [] | [_] | ["", _] => none
    | parts => parts.getLast?

def formatOf (path : String) : FileFormat :=
  if (extension? path).any fun e => e.toLower = "json" then .json else .toml

/-- The text of a fault of reading; what only says that the grammar is broken has no words of its own. -/
def readFaultText (format : FileFormat) (f : ReadFault) : String :=
  (InputFault.unreadable ((f.message? format.floatForm).getD "invalid syntax")).message

/-- Nanoseconds on the clock when a production is made. -/
def startTime : Nat := 1000000000

def produce (path : String) (content : Except FileFault String) : Except Output (Production Actor) := do
  let text ← content.mapError fun f => .failure ("Failed to read " ++ path) f.message
  let format := formatOf path
  let plan ← (Plan.read format text).mapError fun f =>
    .failure ("Failed to parse " ++ path) (readFaultText format f)
  (Production.make plan Company.standard startTime).mapError fun f =>
    .failure ("Invalid workload " ++ path) f.message

def construction (p : Painter) (production : Production Actor) : String :=
  lines (("  " ++ toString production.actors.length ++ " actors, " ++
      toString (production.stage.barrier.maxPhase + 1) ++ " phases") ::
    production.roles.map fun r =>
      "  " ++ p.paint .bold r.name ++ " (" ++ r.type ++ ") x" ++ toString r.threads ++ ": " ++
        toString r.scenes.length ++ " phases")

def perform (p : Painter) (production : Production Actor) : Output :=
  let played := (Playing.make production).play
  let elapsed : TimeSpan := ⟨played.run.world.now - production.stage.now⟩
  match played.result with
  | .ok r => { stdout := report p played.summary (some (r, elapsed)) }
  | .error f => { Output.failure "Workload failed" f.message with stdout := report p played.summary none }

def execute (p : Painter) (read : String → Except FileFault String) : Command → Output
  | .run path dryRun => match produce path (read path) with
    | .error o => o
    | .ok production => if dryRun then { stdout := construction p production } else perform p production
  | .validate path => match produce path (read path) with
    | .error o => o
    | .ok production => { stdout := p.paint .green "✓" ++ " " ++ path ++ "\n" ++ construction p production }
  | .listActors => { stdout := lines Company.standard.types }

def Output.ofRequest (p : Painter) (read : String → Except FileFault String) : Request → Output
  | .command c => execute p read c
  | .text s => { stdout := s }
  | .misuse => .misuse

end PhasedWorkload.Console
