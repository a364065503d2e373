import Assay.Text.Quoted

/-!
# Usage

The faults of a command line, their wordings, and the texts that explain its use.
-/

namespace Assay.Cli

/-- What a command line can get wrong. -/
inductive UsageFault where
  | noOption (name : String) (similar : List String)
  | valueMissing (name : String)
  | valueUnwanted (name : String)
  | missingArgument (name : String)
  | badChoice (option value : String) (choices : List String)
  | noFile (argument path : String)
  | isFolder (argument path : String)
  | extra (words : List String)
  | missingCommand
  | noCommand (name : String) (similar : List String)
deriving DecidableEq, Repr

namespace UsageFault

/-- A hint at similar names. -/
def hint (what : String) : List String → String
  | [] => ""
  | [one] => s!" Did you mean {Text.quote one}?"
  | names => s!" (Possible {what}: " ++ ", ".intercalate (names.map Text.quote) ++ ")"

/-- A value that an argument or option cannot have. -/
def invalid (name reason : String) : String := s!"Invalid value for {Text.quote name}: {reason}"

/-- The wording of a fault. -/
def message : UsageFault → String
  | noOption name similar => s!"No such option {Text.quote name}." ++ hint "options" similar
  | valueMissing name => s!"Option {Text.quote name} requires an argument."
  | valueUnwanted name => s!"Option {Text.quote name} does not take a value."
  | missingArgument name => s!"Missing argument {Text.quote name}."
  | badChoice option value choices =>
    invalid option (s!"{Text.quote value} is not one of " ++
      ", ".intercalate (choices.map Text.quote) ++ ".")
  | noFile argument path => invalid argument s!"File {Text.quote path} does not exist."
  | isFolder argument path => invalid argument s!"File {Text.quote path} is a directory."
  | extra words =>
    let plural := if words.length = 1 then "" else "s"
    s!"Got unexpected extra argument{plural} (" ++ " ".intercalate words ++ ")"
  | missingCommand => "Missing command."
  | noCommand name similar => s!"No such command {Text.quote name}." ++ hint "commands" similar

/-- Whether the usage is shown before the wording: not where an option and its value do not fit. -/
def showsUsage : UsageFault → Bool
  | valueMissing _ => false
  | valueUnwanted _ => false
  | _ => true

end UsageFault

/-- The version of the program. -/
def version : String := "0.1.0"

/-- The line that tells the version. -/
def versionLine : String := s!"gcsf, version {version}"

/-- The usage of a command. -/
structure Usage where
  path : String
  pattern : String

namespace Usage

/-- The usage of the program. -/
def program : Usage := ⟨"gcsf", "[OPTIONS] COMMAND [ARGS]..."⟩

/-- The usage of the command that runs a specification. -/
def run : Usage := ⟨"gcsf run", "[OPTIONS] SPEC_PATH [IMPLEMENTATION]"⟩

/-- The line that shows a usage. -/
def line (u : Usage) : String := s!"Usage: {u.path} {u.pattern}"

/-- The lines that tell a fault. -/
def faultLines (u : Usage) (f : UsageFault) : List String :=
  let usage := if f.showsUsage then [u.line, s!"Try '{u.path} --help' for help.", ""] else []
  usage ++ [s!"Error: {f.message}"]

end Usage

/-- The help on the program. -/
def programHelp : List String := [
  Usage.program.line,
  "",
  "  Interpret conformance specs against Python implementations.",
  "",
  "Options:",
  "  --verbose   Log engine activity and show loaded plugins/operations.",
  "  --version   Show the version and exit.",
  "  -h, --help  Show this message and exit.",
  "",
  "Commands:",
  "  run  Run the cases of SPEC_PATH against IMPLEMENTATION (a .py file or..."]

/-- The help on the command that runs a specification. -/
def runHelp : List String := [
  Usage.run.line,
  "",
  "  Run the cases of SPEC_PATH against IMPLEMENTATION (a .py file or module",
  "  name).",
  "",
  "  Without IMPLEMENTATION only plugin-registered operations are available.",
  "  Exits 0 when no case failed or errored, 1 otherwise.",
  "",
  "Options:",
  "  --select TEXT             Glob over group/.../id paths; repeatable.",
  "  --report [terminal|json]  [default: terminal]",
  "  --report-path TEXT        Destination file for --report json.",
  "  --no-color                Plain terminal output.",
  "  --list                    Print the selected case paths and exit.",
  "  -h, --help                Show this message and exit."]

end Assay.Cli
