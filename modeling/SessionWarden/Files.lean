import SessionWarden.Bytes
/-!
# Files

What the service needs of a file system, and a file system that is a value. A path is read from the left: a
component is looked up in the directory that was reached so far.
-/

namespace SessionWarden

inductive FileError where
  | notFound
  /-- A component that is no directory has something below it. -/
  | notDirectory
  | isDirectory
  | zeroByte
  /-- Any other reason, in the words of the system. -/
  | other (text : String)
deriving DecidableEq, Repr

def FileError.message : FileError → String
  | .notFound => "No such file or directory (os error 2)"
  | .notDirectory => "Not a directory (os error 20)"
  | .isDirectory => "Is a directory (os error 21)"
  | .zeroByte => "file name contained an unexpected NUL byte"
  | .other text => text

structure Files (m : Type → Type) where
  read : String → m (Except FileError Bytes)
  /-- Whether a path leads to a file; a path that leads nowhere is an error. -/
  isFile : String → m (Except FileError Bool)
  workingDirectory : m String

inductive FileEntry where
  | file (content : Bytes)
  | directory

/-- A file system: entries by their components from the root, and the working directory. Each directory on
the way to an entry is one itself. -/
structure FileTree where
  entries : List (List String × FileEntry)
  workingDirectory : List String

namespace FileTree

def ancestors (components : List String) : List (List String) :=
  (List.range components.length).map components.take

def find? (t : FileTree) (components : List String) : Option FileEntry :=
  match t.entries.find? fun e => e.1 == components with
  | some e => some e.2
  | none =>
    if t.entries.any (fun e => (ancestors e.1).contains components) || components == [] ||
        (ancestors t.workingDirectory).contains components || t.workingDirectory == components then
      some .directory
    else none

def walk (t : FileTree) (reached : List String) : List String → Except FileError (List String)
  | [] => .ok reached
  | c :: rest =>
    match t.find? reached with
    | none => .error .notFound
    | some (.file _) => .error .notDirectory
    | some .directory =>
      if c = "" ∨ c = "." then t.walk reached rest
      else if c = ".." then t.walk reached.dropLast rest
      else t.walk (reached ++ [c]) rest

def resolve (t : FileTree) (path : String) : Except FileError FileEntry := do
  if path.toList.contains '\x00' then throw .zeroByte
  if path = "" then throw .notFound
  let start := if path.toList.head? = some '/' then [] else t.workingDirectory
  let reached ← t.walk start ((path.toList.splitOn '/').map String.ofList)
  match t.find? reached with
  | some entry => return entry
  | none => throw .notFound

def files (t : FileTree) : Files Id where
  read path := match t.resolve path with
    | .ok (.file content) => .ok content
    | .ok .directory => .error .isDirectory
    | .error e => .error e
  isFile path := match t.resolve path with
    | .ok (.file _) => .ok true
    | .ok .directory => .ok false
    | .error e => .error e
  workingDirectory := "/" ++ "/".intercalate t.workingDirectory

end FileTree

end SessionWarden
