import PhasedWorkload.Console.Paint
import PhasedWorkload.Run.Basic
import PhasedWorkload.Telemetry.Summary

/-! # The report of a run

After a run its outcome is shown in one line, then a line for each row of the summary, then a warning if
events were lost.
-/
namespace PhasedWorkload.Console

open Telemetry

def lines (ls : List String) : String := String.join (ls.map fun l => l ++ "\n")

def meanMicros (r : Row) : Nat := r.measure.micros / (r.completed + r.failed)

def nameWidth : Nat := 32

def rowLine (p : Painter) (name : String) (r : Row) : String :=
  "  " ++ p.paintPadded .bold nameWidth name ++ " ok=" ++ p.paint .green (toString r.completed) ++
    " failed=" ++ p.paint (if 0 < r.failed then .red else .plain) (toString r.failed) ++
    " docs=" ++ toString r.measure.documents ++ " bytes=" ++ toString r.measure.bytes ++
    " mean=" ++ toString (meanMicros r) ++ "us"

def outcomeLine (p : Painter) (s : Summary) : Option (RunReport × TimeSpan) → String
  | some (report, elapsed) =>
    p.paint .boldGreen "Completed" ++ " " ++ toString report.actors ++ " actors through " ++
      toString report.phases ++ " phases in " ++ elapsed.roundedText
  | none => p.paint .boldRed "Aborted" ++ " " ++ s.aborted.getD ""

def lossLines (p : Painter) (s : Summary) : List String :=
  if 0 < s.lagged then
    ["  " ++ p.paint .yellow "warning:" ++ " " ++ toString s.lagged ++
      " events were dropped before they could be counted"]
  else []

/-- The report; without rows it is the outcome alone. -/
def report (p : Painter) (s : Summary) (outcome : Option (RunReport × TimeSpan)) : String :=
  lines (["", outcomeLine p s outcome] ++
    if s.rows.isEmpty then []
    else "" :: s.rows.map (fun r => rowLine p r.1 r.2) ++ lossLines p s)

end PhasedWorkload.Console
