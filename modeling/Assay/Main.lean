import Assay.Cli.Program
import Assay.Sample.Modules
import Std.Time.Format

/-!
# The command line

Reads the files that the arguments name, asks the program for its answer, and prints and writes what
it says. Everything is decided by `Assay.Cli.Program.answer`.
-/

namespace Assay.CommandLine

open Assay.Cli

/-- The time of day in universal time. -/
def now : IO Moment := do
  let t ← Std.Time.Timestamp.now
  let p := Std.Time.PlainDateTime.ofWallTime (t.toWallTime .zero)
  return ⟨⟨p.date.year.toInt.toNat, p.date.month.val.toNat, p.date.day.val.toNat⟩,
    p.hour.val.toNat, p.minute.val.toNat, p.time.second.val.toNat, 0, some 0⟩

/-- A file as it stands on the disk; it cannot be loaded as a module. -/
def fileOf (path : String) (content : ByteArray) : File Sample.State :=
  ⟨content.toList, fun _ =>
    ([], .error (.told "ImportError" s!"Unable to load module from {path}"))⟩

/-- The homes of users that are known: that of the user who runs the program. -/
def homes : IO Path.Home := do
  let own ← IO.getEnv "HOME"
  return fun first => if first = "~" then own else none

/-- The file that an argument names; a folder is known by a file below it. -/
def fileAt? (path : String) : IO (Option (String × File Sample.State)) := do
  try
    let content ← IO.FS.readBinFile path
    return some (Folder.key path, fileOf path content)
  catch
    | .noFileOrDirectory _ _ _ => return none
    | _ => return some (Folder.key path ++ "/", fileOf path .empty)

/-- The files that arguments name. -/
def filesOf : List String → IO (List (String × File Sample.State))
  | [] => return []
  | path :: rest => do
    let file ← fileAt? path
    return file.toList ++ (← filesOf rest)

/-- Writes a file, with the folders above it. -/
def write (path text : String) : IO Unit := do
  let above := Path.root path ++ "/".intercalate (Path.parts path).dropLast
  unless above.isEmpty do IO.FS.createDirAll above
  IO.FS.writeFile path text

/-- The setting of the program on this machine. -/
def setting (args : List String) : IO (Setting Sample.State (List String)) := do
  let files ← filesOf args
  let root ← IO.currentDir
  return {
    folder := ⟨root.toString, files⟩
    home := ← homes
    pluginNames := ← IO.getEnv "GCSF_PLUGINS"
    library := Sample.library
    finder := Sample.finder
    world := []
    memory := Sample.memory false
    time := (← now).textWith "T"
    yaml := Source.yamlReader "not a YAML document"
    parser := .usual }

/-- What is told of an escape. -/
def escapeLines (e : Escape) : List String :=
  match e.failure.text with
  | .ok t => if t = "" then [] else [t]
  | .error _ => [e.failure.className]

end Assay.CommandLine

open Assay Assay.CommandLine in
/-- Answers the command line. -/
def main (args : List String) : IO UInt32 := do
  let w ← setting args
  let a := Cli.Program.answer w args {}
  let stdout ← IO.getStdout
  let stderr ← IO.getStderr
  stdout.putStr (Session.streamText (← stdout.isTty) a.output)
  stderr.putStr (Session.streamText (← stderr.isTty) a.errors)
  for (path, text) in a.files do
    write path text
  match a.exit with
  | .ok code => return code.toUInt32
  | .error e => do
    stderr.putStr (Session.streamText true (escapeLines e))
    return 1
