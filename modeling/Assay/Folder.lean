import Assay.Path

/-!
# Folders

A folder holds files by their paths. A path is looked up from the root of the folder, with steps to a
parent taken; a path that files stand below is a folder itself. Files outside the folder are held by
their full paths.
-/

namespace Assay

/-- A folder: the full path of its root, and what its files hold by their paths from there. -/
structure Folder (α : Type) where
  root : String
  files : List (String × α)

/-- What stands at a path. -/
inductive Place (α : Type) where
  | nothing
  | folder
  | file (content : α)
deriving DecidableEq

namespace Place

/-- A place with its content replaced. -/
def map {α β : Type} (f : α → β) : Place α → Place β
  | nothing => nothing
  | folder => folder
  | file a => file (f a)

end Place

namespace Folder

variable {α β : Type}

/-- The parts of a path with steps to a parent taken. -/
def resolveParts : List String → List String → List String
  | done, [] => done.reverse
  | done, ".." :: rest => resolveParts done.tail rest
  | done, p :: rest => resolveParts (p :: done) rest

/-- A path inside the folder, from its root. -/
def localPath (path : String) : String := "/".intercalate (resolveParts [] (Path.parts path))

/-- The path under which a file is held. -/
def key (path : String) : String := Path.root path ++ localPath path

/-- The full path of a file. -/
def fullPath (d : Folder α) (path : String) : String :=
  if Path.root path ≠ "" then key path
  else if localPath path = "" then d.root
  else d.root ++ "/" ++ localPath path

/-- What the file at a path holds. -/
def file? (d : Folder α) (path : String) : Option α :=
  (d.files.find? fun f => f.1 == key path).map Prod.snd

/-- What stands at a path. A path that ends with a slash can only be that of a folder. -/
def place (d : Folder α) (path : String) : Place α :=
  if path = "" then .nothing
  else if localPath path = "" then .folder
  else if d.files.any fun f => f.1.startsWith (key path ++ "/") then .folder
  else
    match d.file? path with
    | some a => if path.endsWith "/" then .nothing else .file a
    | none => .nothing

/-- A folder with the contents of its files replaced. -/
def map (f : α → β) (d : Folder α) : Folder β :=
  ⟨d.root, d.files.map fun e => (e.1, f e.2)⟩

end Folder

end Assay
