import PhasedWorkload.Console.Execution

/-! # The program -/
namespace PhasedWorkload.Console

/-- Reads a file, or says why that is not possible. -/
def readFile (path : String) : IO (Except FileFault String) := do
  try
    return .ok (← IO.FS.readFile path)
  catch e => match e with
    | .noFileOrDirectory .. => return .error .missing
    | .inappropriateType _ code _ => return .error (if code = 21 then .directory else .notDirectory)
    | .permissionDenied .. => return .error .forbidden
    | .invalidArgument _ code details =>
      return .error (if code = 22 then .other (details ++ " (os error 22)") else .nameTooLong)
    | .userError _ => return .error .notText
    | e => return .error (.other (toString e))

def contents (request : Request) : IO (Except FileFault String) :=
  match request with
  | .command c => match c.file? with
    | some path => readFile path
    | none => return .error .missing
  | .text _ | .misuse => return .error .missing

end PhasedWorkload.Console

open PhasedWorkload.Console in
def main (arguments : List String) : IO UInt32 := do
  let stdout ← IO.getStdout
  let painter := Painter.choose (← stdout.isTty) (← IO.getEnv "CLICOLOR") (← IO.getEnv "CLICOLOR_FORCE")
    (← IO.getEnv "NO_COLOR")
  let request := Request.ofArguments arguments
  let content ← contents request
  let output := Output.ofRequest painter (fun _ => content) request
  stdout.putStr output.stdout
  (← IO.getStderr).putStr output.stderr
  return UInt32.ofNat output.exit
