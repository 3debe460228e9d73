import BBCode.Program

/-!
# BBCode.Main

The program on the files of a machine. Everything that is decided is decided in `Program.run`;
here the questions of a `FileSystem` are passed on to the machine.
-/

namespace BBCode

/-- Why the machine refuses an operation. -/
def OsError.ofMachine : IO.Error → OsError
  | .noFileOrDirectory .. => notFound
  | .alreadyExists .. => exists_
  | .inappropriateType _ code details => ofCode code details
  | .permissionDenied _ code details => ofCode code details
  | .resourceExhausted _ code details => ofCode code details
  | .invalidArgument _ code details => ofCode code details
  | e => other (toString e).toList
where
  ofCode (code : UInt32) (details : String) : OsError :=
    if code = 20 then notFolder
    else if code = 21 then isFolder
    else if code = 36 then nameTooLong
    else other (details ++ " (os error " ++ toString code ++ ")").toList

namespace Main

/-- The text of a path for the machine. -/
def spelling (p : Path) : String := String.ofList p.text

/-- A path as a place that can be asked for its content. -/
def place (p : Path) : IO.FS.DirEntry := ⟨spelling p, ""⟩

def attempt {α : Type} (x : IO α) : IO (Except OsError α) := do
  match ← x.toBaseIO with
  | .ok a => return .ok a
  | .error e => return .error (OsError.ofMachine e)

def kind? (p : Path) : IO (Option EntryKind) := do
  match ← (place p).root.metadata.toBaseIO with
  | .ok data => return some (if data.type == .dir then .folder else .file)
  | .error _ => return none

/-- The names of the entries of a folder. -/
def names (p : Path) : IO (List Text) := do
  return (← (place p).root.readDir).toList.map fun entry => entry.fileName.toList

instance : FileSystem IO where
  kind? := kind?
  readFile p := attempt (IO.FS.readBinFile (spelling p))
  writeFile p content := attempt (IO.FS.writeBinFile (spelling p) content)
  makeFolder p := attempt (IO.FS.createDir (spelling p))
  readFolder p := attempt (names p)

partial def readAll (input : IO.FS.Stream) (read : ByteArray) : IO ByteArray := do
  let bytes ← input.read 65536
  if bytes.isEmpty then return read else readAll input (read ++ bytes)

/-- The variables that the program was started with. -/
def environment : IO Environment := do
  match ← attempt (IO.FS.readBinFile "/proc/self/environ") with
  | .ok bytes =>
    match FileSystem.decode bytes with
    | .ok entries => return { assignments := Environment.ofEntries entries }
    | .error _ => return {}
  | .error _ =>
    let home ← IO.getEnv "HOME"
    return { assignments := (home.map fun v => ("HOME".toList, v.toList)).toList }

/-- The name that the program was started under. -/
def programName : IO Text := do
  return ((Path.mk (← IO.appPath).toString.toList).fileName?).getD "bbcode".toList

def run (args : List String) : IO UInt32 := do
  let stdin := attempt (do readAll (← IO.getStdin) .empty)
  let text := do return (← stdin).bind FileSystem.decode
  let outcome ← Program.run (← environment) text (← programName) (args.map String.toList)
  (← IO.getStderr).putStr (String.ofList outcome.remarks)
  (← IO.getStdout).putStr (String.ofList outcome.output)
  return UInt32.ofNat outcome.code

end Main

end BBCode

def main (args : List String) : IO UInt32 := BBCode.Main.run args
