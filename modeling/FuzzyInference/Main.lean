import FuzzyInference.Command.Reads

/-! The program. Files are looked up on disk before a command runs and put there after it. -/

namespace FuzzyInference

def diskPath (place : List String) : String := "/" ++ "/".intercalate place

/-- Looks up what stands on the way of a path, down to what the path names. -/
def observe (files : Files) (place : List String) : List String → IO Files
  | [] => return files
  | part :: rest => do
    let place := if part = ".." then place.dropLast else place ++ [part]
    match ← (IO.FS.readBinFile (diskPath place)).toBaseIO with
    | .ok content => return files.lay place (.file content)
    | .error (.inappropriateType ..) => observe (files.lay place .directory) place rest
    | .error _ => return files

def observeAll (files : Files) (paths : List String) : IO Files :=
  paths.foldlM (fun files path =>
    let start := if Path.isAbsolute path then [] else files.workingDirectory
    observe files start (Path.parts path)) files

/-- Writes the files that are not as they were before. -/
def store (before after : Files) : IO Unit :=
  after.entries.forM fun (place, entry) => do
    match entry, before.entry? place with
    | .file new, some (.file old) =>
      if new != old then IO.FS.writeBinFile (diskPath place) new
    | .file new, _ => IO.FS.writeBinFile (diskPath place) new
    | .directory, _ => return

def environment : IO Environment := do
  let names := ["HOME", "XDG_CONFIG_HOME", "FUZZY_MODE", "FUZZY_SAMPLES", "FUZZY_DEFUZZIFIER",
    "FUZZY_LOG_LEVEL", "FUZZY_FORMAT"]
  let pairs ← names.filterMapM fun name => do
    return (← IO.getEnv name).map fun value => (name, value)
  return ⟨pairs⟩

end FuzzyInference

open FuzzyInference in
def main (arguments : List String) : IO UInt32 := do
  let e ← environment
  let files := Files.bare (Path.parts (← IO.currentDir).toString)
  let files ← observeAll files (Command.paths e files arguments)
  let files ← observeAll files (Command.paths e files arguments)
  let completion := Command.run e files arguments
  store files completion.files
  IO.print completion.output
  IO.eprint completion.remarks
  return completion.exitCode.toUInt32
