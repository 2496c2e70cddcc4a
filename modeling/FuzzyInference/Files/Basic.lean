import FuzzyInference.Files.Path
import FuzzyInference.Fault.Basic

/-! A file system as a value: what stands at each absolute path, and the directory that relative paths
start from. Texts are read and written whole. -/

namespace FuzzyInference

inductive Entry where
  | file (content : ByteArray)
  | directory

/-- Why a file could not be read or written. -/
inductive FileError where
  | notFound
  | permissionDenied
  | notDirectory
  | isDirectory
  | nameTooLong
  /-- The path holds the character that ends paths. -/
  | invalidPath
  | invalidText
  | other (message : String)
deriving DecidableEq, Repr

namespace FileError

def message : FileError → String
  | .notFound => "No such file or directory (os error 2)"
  | .permissionDenied => "Permission denied (os error 13)"
  | .notDirectory => "Not a directory (os error 20)"
  | .isDirectory => "Is a directory (os error 21)"
  | .nameTooLong => "File name too long (os error 36)"
  | .invalidPath => "file name contained an unexpected NUL byte"
  | .invalidText => "stream did not contain valid UTF-8"
  | .other message => message

def code : FileError → Code
  | .notFound => .fileNotFound
  | _ => .ioError

def fault (e : FileError) : Fault := (Fault.io e.message).withCode e.code

end FileError

structure Files where
  /-- By the parts of the absolute path. A directory has an entry of its own. -/
  entries : List (List String × Entry) := []
  workingDirectory : List String := []

namespace Files

/-- The bytes that a path may have. -/
def pathLimit : Nat := 4095

/-- The bytes that each of its parts may have. -/
def nameLimit : Nat := 255

def entry? (files : Files) (place : List String) : Option Entry :=
  if place = [] then some .directory else (Keyed.get? Prod.fst place files.entries).map Prod.snd

/-- A path that means the same from any directory. -/
def absolute (files : Files) (path : String) : String :=
  Path.join ("/" ++ "/".intercalate files.workingDirectory) path

/-- Whether a directory stands at a place. -/
def enter (files : Files) (place : List String) : Except FileError Unit :=
  match files.entry? place with
  | none => .error .notFound
  | some (.file _) => .error .notDirectory
  | some .directory => .ok ()

/-- Follows the parts of a path from a directory. All but the last must name directories. -/
def follow (files : Files) (place : List String) : List String → Except FileError (List String)
  | [] => .ok place
  | part :: rest => do
    files.enter place
    if part.utf8ByteSize > nameLimit then .error .nameTooLong
    else files.follow (if part = ".." then place.dropLast else place ++ [part]) rest

/-- The directory that a path starts from, if the path is one at all. -/
def origin (files : Files) (path : String) : Except FileError (List String) :=
  if '\x00' ∈ path.toList then .error .invalidPath
  else if path.utf8ByteSize > pathLimit then .error .nameTooLong
  else if path.isEmpty then .error .notFound
  else .ok (if Path.isAbsolute path then [] else files.workingDirectory)

/-- What a path names. Only a directory goes by a path that does not end in a name. -/
def find (files : Files) (path : String) : Except FileError Entry := do
  let place ← files.follow (← files.origin path) (Path.parts path)
  match files.entry? place with
  | none => .error .notFound
  | some .directory => .ok .directory
  | some (.file content) =>
    if Path.ending path = .name then .ok (.file content) else .error .notDirectory

def readBytes (files : Files) (path : String) : Except FileError ByteArray := do
  match ← files.find path with
  | .directory => .error .isDirectory
  | .file content => .ok content

/-- The text of a file, which must be UTF-8. -/
def readText (files : Files) (path : String) : Except FileError String := do
  match String.fromUTF8? (← files.readBytes path) with
  | some text => .ok text
  | none => .error .invalidText

def put (files : Files) (place : List String) (entry : Entry) : Files :=
  { files with entries := Keyed.insert Prod.fst (place, entry) files.entries }

/-- Makes a file or writes over it. Its directory must be there. A path that does not end in a name
is taken for a directory, also where there is none. -/
def write (files : Files) (path : String) (content : ByteArray) : Except FileError Files := do
  let start ← files.origin path
  let parts := Path.parts path
  match Path.ending path with
  | .name =>
    let place ← files.follow start parts
    match files.entry? place with
    | some .directory => .error .isDirectory
    | _ => .ok (files.put place (.file content))
  | .slash =>
    files.enter (← files.follow start parts.dropLast)
    .error .isDirectory
  | .dots =>
    files.enter (← files.follow start parts)
    .error .isDirectory

def writeText (files : Files) (path text : String) : Except FileError Files :=
  files.write path text.toUTF8

/-- Whether a path names a file or a directory. -/
def pathExists (files : Files) (path : String) : Bool := (files.find path).isOk

/-- The directories on the way to a place, outermost first. -/
def ancestors (place : List String) : List (List String) :=
  ((List.range place.length).drop 1).map place.take

/-- Puts an entry in place together with the directories above it. -/
def lay (files : Files) (place : List String) (entry : Entry) : Files :=
  (ancestors place).foldl (fun fs dir =>
    if (fs.entry? dir).isSome then fs else fs.put dir .directory) files |>.put place entry

/-- Nothing but a working directory. -/
def bare (workingDirectory : List String) : Files :=
  ({ workingDirectory } : Files).lay workingDirectory .directory

end Files

end FuzzyInference
