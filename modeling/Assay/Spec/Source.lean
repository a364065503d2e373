import Assay.Folder
import Assay.Json.Reader
import Assay.Spec.Document
import Assay.Text.Line
import Assay.Text.Utf8
import Assay.Yaml.Document

/-!
# Specifications from files

A file holds a document as UTF-8. The suffix of its path says whether the document is YAML, which a
reader from elsewhere makes sense of; all other files are JSON. A path may start at the home of a user.
What a file can lack is listed here, from the file itself to the specification.
-/

namespace Assay

/-- What a reader of YAML makes of a text. -/
inductive Reading where
  /-- A value. -/
  | value (v : Value)
  /-- Something that holds itself, and so is no value; what loading it as a specification comes to is
  told with it. -/
  | endless (loaded : Except Failure Spec)
  /-- The text is refused with a diagnosis. -/
  | refused (diagnosis : String)
  /-- Another error is raised. -/
  | raised (f : Failure)

/-- Why a file gives no specification. -/
inductive SourceFault where
  | homeless
  | noFile (path : String)
  | isFolder (path : String)
  | encoding (f : Text.Utf8.Fault)
  | json (path : String) (f : Json.ReadFault)
  | yaml (path diagnosis : String)
  | raised (f : Failure)
  | document (f : DocumentFault)

namespace Source

/-- What a file holds: a document, or something that holds itself with what loading it comes to. -/
inductive Content where
  | tree (v : Value)
  | endless (loaded : Except Failure Spec)

/-- A reader of YAML. -/
abbrev YamlReader := List Char → Reading

/-- The suffixes of YAML files, in small letters. -/
def yamlSuffixes : List String := [".yaml", ".yml"]

/-- Whether a path names a YAML file. -/
def isYaml (path : String) : Bool :=
  yamlSuffixes.contains ((Path.suffix path).map Char.toLower)

/-- What the file at a path holds, by what a reader of YAML makes of its text. -/
def ofReading (path : String) : Reading → Except SourceFault Content
  | .value v => .ok (.tree v)
  | .endless loaded => .ok (.endless loaded)
  | .refused diagnosis => .error (.yaml path diagnosis)
  | .raised f => .error (.raised f)

/-- What the characters of the file at a path hold. -/
def content (yaml : YamlReader) (path : String) (cs : List Char) : Except SourceFault Content :=
  if isYaml path then ofReading path (yaml cs)
  else ((Json.parseChars cs).mapError (.json path)).map fun j => .tree j.toValue

/-- What the file at a full path holds. -/
def readAt (yaml : YamlReader) (path : String) (p : Place (List UInt8)) : Except SourceFault Content :=
  match p with
  | .nothing => .error (.noFile path)
  | .folder => .error (.isFolder path)
  | .file bytes =>
    match Text.Utf8.decode bytes with
    | .error f => .error (.encoding f)
    | .ok cs => content yaml path (Text.unifyLines cs)

/-- What the file at a path in a folder holds, once the home of a user is put in its place. -/
def read (home : Path.Home) (yaml : YamlReader) (folder : Folder (List UInt8)) (path : String) :
    Except SourceFault Content :=
  match Path.expand home path with
  | none => .error .homeless
  | some path => readAt yaml (folder.fullPath path) (folder.place path)

/-- The specification that a file holds. -/
def Content.toSpec : Content → Except SourceFault Spec
  | .tree v => (Document.toSpec v).mapError .document
  | .endless loaded => loaded.mapError .raised

/-- The specification at a path in a folder. -/
def load (home : Path.Home) (yaml : YamlReader) (folder : Folder (List UInt8)) (path : String) :
    Except SourceFault Spec := do
  (← read home yaml folder path).toSpec

/-- The reader of YAML of this library; `diagnosis` is what it says of a text that is not well formed.
What holds itself is too deep to be loaded. -/
def yamlReader (diagnosis : String) : YamlReader := fun cs =>
  match Yaml.parseChars cs with
  | .ok (some v) => .value v
  | .ok none => .endless (.error (.told "RecursionError" "maximum recursion depth exceeded"))
  | .error .broken => .refused diagnosis
  | .error f => .raised f.failure

end Source

/-- The error that a fault is raised as. -/
def SourceFault.failure : SourceFault → Failure
  | .homeless => .told "RuntimeError" Path.homelessText
  | .noFile path => .told "FileNotFoundError" ("[Errno 2] No such file or directory: " ++ Text.quote path)
  | .isFolder path => .told "IsADirectoryError" ("[Errno 21] Is a directory: " ++ Text.quote path)
  | .encoding f => .told "UnicodeDecodeError" f.message
  | .json path f =>
    match f with
    | .misplaced _ _ _ _ => .told "SpecError" s!"Unable to parse spec {path}: {f.message}"
    | .longInteger _ => .told "ValueError" f.message
  | .yaml path diagnosis => .told "SpecError" s!"Unable to parse spec {path}: {diagnosis}"
  | .raised f => f
  | .document f => f.failure

end Assay
