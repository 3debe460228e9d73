import BBCode.Path

/-!
# BBCode.FileSystem

What a program asks of the files it works with, and why an answer can be a refusal. The
operations are those of a class, so that the same program runs on the files of a machine and on
a `Disk`, of which theorems can speak.
-/

namespace BBCode

/-- Why a file operation is refused. -/
inductive OsError where
  | notFound
  | exists_
  | notFolder
  | isFolder
  | nameTooLong
  /-- A path cannot hold the character NUL. -/
  | nulInPath
  /-- The content of a file is not text. -/
  | notText
  | other (description : Text)
  deriving DecidableEq, Repr

namespace OsError

def message : OsError → Text
  | notFound => "No such file or directory (os error 2)".toList
  | exists_ => "File exists (os error 17)".toList
  | notFolder => "Not a directory (os error 20)".toList
  | isFolder => "Is a directory (os error 21)".toList
  | nameTooLong => "File name too long (os error 36)".toList
  | nulInPath => "file name contained an unexpected NUL byte".toList
  | notText => "stream did not contain valid UTF-8".toList
  | other d => d

end OsError

inductive EntryKind where
  | file
  | folder
  deriving DecidableEq, Repr

class FileSystem (m : Type → Type) where
  /-- What is at a path, if anything can be found there. -/
  kind? : Path → m (Option EntryKind)
  readFile : Path → m (Except OsError ByteArray)
  /-- Makes a file or replaces its content. -/
  writeFile : Path → ByteArray → m (Except OsError Unit)
  /-- Makes one folder, whose parent has to be there. -/
  makeFolder : Path → m (Except OsError Unit)
  /-- The names of the entries of a folder, in any order. -/
  readFolder : Path → m (Except OsError (List Text))

namespace FileSystem

/-- The bytes that a path cannot have: one of so many leads nowhere. -/
def pathLimit : Nat := 4096

variable {m : Type → Type} [Monad m] [FileSystem m]

def exists? (p : Path) : m Bool := do return (← kind? p).isSome

def isFolder? (p : Path) : m Bool := do return (← kind? p) = some .folder

/-- The text that bytes stand for. -/
def decode (bytes : ByteArray) : Except OsError Text :=
  match String.fromUTF8? bytes with
  | some s => .ok s.toList
  | none => .error .notText

/-- The text of a file. -/
def readText (p : Path) : m (Except OsError Text) := do
  match ← readFile p with
  | .error e => return .error e
  | .ok bytes => return decode bytes

def writeText (p : Path) (s : Text) : m (Except OsError Unit) :=
  writeFile p (String.ofList s).toUTF8

/-- Makes the first of some folders, and before it the others as far as they are missing. Each
folder lies in the next one. -/
def makeFoldersAt : List Path → m (Except OsError Unit)
  | [] => return .ok ()
  | p :: above => do
    match ← makeFolder p with
    | .ok () => return .ok ()
    | .error .notFound =>
      match ← makeFoldersAt above with
      | .error e => return .error e
      | .ok () =>
        match ← makeFolder p with
        | .ok () => return .ok ()
        | .error e => if ← isFolder? p then return .ok () else return .error e
    | .error e => if ← isFolder? p then return .ok () else return .error e

def makeFolders (p : Path) : m (Except OsError Unit) := makeFoldersAt p.folders

/-- Makes the folders above a path. -/
def makeParents (p : Path) : m (Except OsError Unit) := makeFoldersAt p.folders.tail

end FileSystem

end BBCode
