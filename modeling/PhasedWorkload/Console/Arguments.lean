/-! # The command line

The arguments name a command, a file for most of them, and switches. Everything after a bare double
hyphen is a file. The first argument that does not fit is a misuse, and the first request for help
before it is answered with help.
-/
namespace PhasedWorkload.Console

inductive Command where
  | run (file : String) (dryRun : Bool)
  | validate (file : String)
  | listActors
deriving DecidableEq, Repr

def Command.file? : Command → Option String
  | .run file _ | .validate file => some file
  | .listActors => none

inductive Request where
  | command (command : Command)
  | text (text : String)
  | misuse
deriving DecidableEq, Repr

inductive Verb where
  | run
  | validate
  | listActors
deriving DecidableEq, Repr

namespace Verb

def ofName? : String → Option Verb
  | "run" => some .run
  | "validate" => some .validate
  | "list-actors" => some .listActors
  | _ => none

def takesFile : Verb → Bool
  | .run | .validate => true
  | .listActors => false

def takesDryRun : Verb → Bool
  | .run => true
  | .validate | .listActors => false

def help : Verb → String
  | .run =>
    "Run a workload file\n\nUsage: lockstep run [OPTIONS] <FILE>\n\nArguments:\n  <FILE>  \n\n" ++
    "Options:\n      --dry-run  Validate and construct every actor, then stop\n  -h, --help     Print help\n"
  | .validate =>
    "Check a workload file without running it\n\nUsage: lockstep validate <FILE>\n\n" ++
    "Arguments:\n  <FILE>  \n\nOptions:\n  -h, --help  Print help\n"
  | .listActors =>
    "List the registered actor types\n\nUsage: lockstep list-actors\n\nOptions:\n  -h, --help  Print help\n"

end Verb

def versionText : String := "lockstep 0.1.0\n"

def helpText : String :=
  "Phase-synchronized multi-actor workload runner\n\nUsage: lockstep <COMMAND>\n\n" ++
  "Commands:\n  run          Run a workload file\n  validate     Check a workload file without running it\n" ++
  "  list-actors  List the registered actor types\n" ++
  "  help         Print this message or the help of the given subcommand(s)\n\n" ++
  "Options:\n  -h, --help     Print help\n  -V, --version  Print version\n"

def helpOnHelp : String :=
  "Print this message or the help of the given subcommand(s)\n\nUsage: lockstep help [COMMAND]...\n\n" ++
  "Arguments:\n  [COMMAND]...  Print help for the subcommand(s)\n"

structure Reading where
  file : Option String := none
  dryRun : Bool := false
  /-- Whether only files can follow. -/
  onlyFiles : Bool := false
deriving DecidableEq, Repr

inductive Step where
  | goOn (reading : Reading)
  | help
  | misuse
deriving DecidableEq, Repr

namespace Reading

def takeFile (r : Reading) (v : Verb) (arg : String) : Step :=
  if v.takesFile && r.file.isNone && arg ≠ "" then .goOn { r with file := some arg } else .misuse

def step (r : Reading) (v : Verb) (arg : String) : Step :=
  if r.onlyFiles then r.takeFile v arg
  else if arg = "--" then .goOn { r with onlyFiles := true }
  else if arg = "--help" then .help
  else if arg = "--dry-run" then
    if v.takesDryRun && !r.dryRun then .goOn { r with dryRun := true } else .misuse
  else match arg.toList with
    | '-' :: 'h' :: _ => .help
    | '-' :: _ :: _ => .misuse
    | _ => r.takeFile v arg

def request (r : Reading) : Verb → Request
  | .run => (r.file.map fun file => Request.command (.run file r.dryRun)).getD .misuse
  | .validate => (r.file.map fun file => Request.command (.validate file)).getD .misuse
  | .listActors => .command .listActors

def readAll (v : Verb) : Reading → List String → Request
  | r, [] => r.request v
  | r, arg :: rest =>
    match r.step v arg with
    | .goOn next => readAll v next rest
    | .help => .text v.help
    | .misuse => .misuse

end Reading

def helpOn : List String → Request
  | [] => .text helpText
  | ["help"] => .text helpOnHelp
  | [name] => ((Verb.ofName? name).map fun v => Request.text v.help).getD .misuse
  | _ => .misuse

def Request.ofArguments : List String → Request
  | [] => .misuse
  | arg :: rest =>
    if arg = "help" then helpOn rest
    else if arg = "--help" then .text helpText
    else if arg = "--version" then .text versionText
    else match Verb.ofName? arg, arg.toList with
      | some v, _ => Reading.readAll v {} rest
      | none, '-' :: 'h' :: _ => .text helpText
      | none, '-' :: 'V' :: _ => .text versionText
      | none, _ => .misuse

end PhasedWorkload.Console
