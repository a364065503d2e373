import Assay.Cli.Arguments
import Assay.Folder
import Assay.Session

/-!
# Requests

What a command line asks for. The program itself tells its version or its help, or runs a command;
the only command runs a specification. Help and version come before anything else that a valid
command line says.
-/

namespace Assay.Cli

/-- The options of the program. -/
inductive ProgramOption where
  | verbose
  | version
  | help
deriving DecidableEq, Repr

/-- The options of the command that runs a specification. -/
inductive RunOption where
  | select
  | report
  | reportPath
  | noColor
  | list
  | help
deriving DecidableEq, Repr

/-- The options of the program, which stand before its command. -/
def programForm : Form ProgramOption :=
  { long := [("--verbose", .verbose), ("--version", .version), ("--help", .help)]
    letters := [('h', .help)]
    takesValue := fun _ => false
    mixed := false }

/-- The options of the command that runs a specification, which may stand anywhere. -/
def runForm : Form RunOption :=
  { long := [("--select", .select), ("--report", .report), ("--report-path", .reportPath),
      ("--no-color", .noColor), ("--list", .list), ("--help", .help)]
    letters := [('h', .help)]
    takesValue := fun o => o = .select || o = .report || o = .reportPath
    mixed := true }

/-- What the program is asked for: to tell something, or to run its command with arguments. -/
inductive Request where
  | told (lines : List String)
  | command (verbose : Bool) (arguments : List String)
deriving DecidableEq, Repr

/-- What the command that runs a specification is asked for. -/
inductive RunRequest where
  | told (lines : List String)
  | run (specPath : String) (implementation : Option String) (options : Options)

/-- How a command line is refused or given up: the lines that tell why, and the exit code. -/
structure Refusal where
  lines : List String
  code : Nat
deriving DecidableEq, Repr

/-- A reader of command lines: it makes requests of the arguments of the program and of those of its
command. What stands at a path can be asked for. Some errors that are raised while it is at work it takes
for its own, and gives up. -/
structure Parser where
  program : List String → Except Refusal Request
  run : (String → Place Unit) → List String → Except Refusal RunRequest
  rescue : Failure → Option Refusal

/-- The name of the command that runs a specification. -/
def runName : String := "run"

/-- The refusal of a fault. -/
def UsageFault.refusal (u : Usage) (f : UsageFault) : Refusal := ⟨u.faultLines f, 2⟩

namespace Request

/-- The first option that answers at once: help or version. -/
def ofOptions (as : Arguments ProgramOption) : Option Request :=
  as.options.findSome? fun o =>
    match o.1 with
    | .verbose => none
    | .version => some (.told [versionLine])
    | .help => some (.told programHelp)

/-- The request of a command line that is not empty. A name that looks like an option is taken for
one before it is refused. -/
def ofArguments (args : List String) : Except UsageFault Request := do
  let as ← Arguments.parse programForm args
  match ofOptions as, as.words with
  | some r, _ => return r
  | none, [] => .error .missingCommand
  | none, name :: rest =>
    if name = runName then return .command (as.has .verbose) rest
    else if name.startsWith "-" then
      match ofOptions (← Arguments.parse programForm (name :: rest)) with
      | some r => return r
      | none => .error (.noCommand name (similar name [runName]))
    else .error (.noCommand name (similar name [runName]))

end Request

namespace RunRequest

/-- The name of the argument for the specification. -/
def specArgument : String := "SPEC_PATH"

/-- The forms of reports. -/
def formats : List String := ["terminal", "json"]

/-- The report that is asked for; the last value counts. -/
def reportFormat (as : Arguments RunOption) : Except UsageFault String :=
  match (as.values .report).getLast? with
  | none => .ok "terminal"
  | some f => if formats.contains f then .ok f else .error (.badChoice "--report" f formats)

/-- The path of the specification, at which a file must stand. -/
def specPath (place : String → Place Unit) (words : List String) : Except UsageFault String :=
  match words with
  | [] => .error (.missingArgument specArgument)
  | path :: _ =>
    match place path with
    | .nothing => .error (.noFile specArgument path)
    | .folder => .error (.isFolder specArgument path)
    | .file _ => .ok path

/-- The request of the arguments of the command. -/
def ofArguments (place : String → Place Unit) (args : List String) : Except UsageFault RunRequest := do
  let as ← Arguments.parse runForm args
  if as.has .help then return .told runHelp
  else
    let format ← reportFormat as
    let path ← specPath place as.words
    match as.words.drop 2 with
    | [] =>
      return .run path as.words[1]? {
        select := as.values .select
        reportFormat := format
        reportPath := (as.values .reportPath).getLast?
        useColor := !as.has .noColor
        listOnly := as.has .list }
    | extra => .error (.extra extra)

end RunRequest

/-- The lines that tell of an interrupt. -/
def interruptLines : List String := ["", "Aborted!"]

/-- The reader of command lines of this library. An empty command line is told the help as an error, and
input that has ended is told like an interrupt. -/
def Parser.usual : Parser where
  program args :=
    if args = [] then .error ⟨programHelp, 2⟩
    else (Request.ofArguments args).mapError (UsageFault.refusal .program)
  run place args := (RunRequest.ofArguments place args).mapError (UsageFault.refusal .run)
  rescue f := if f.className = "EOFError" then some ⟨interruptLines, 1⟩ else none

end Assay.Cli
