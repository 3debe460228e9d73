import BBCode.FileSystem

/-!
# BBCode.Source

Reading and writing documents below a root folder, and finding the sources in a folder.

Main statement: `sourcesBelow_succ`, one step down in looking for sources at any depth.
-/

namespace BBCode

/-- Why a document cannot be read, written or placed. -/
inductive SourceError where
  | notFound (path : Path)
  | io (cause : OsError)
  | invalidFolder (path : Path)
  | outsideRoot (path root : Path)
  deriving DecidableEq, Repr

namespace SourceError

def message : SourceError → Text
  | notFound p => "File not found: ".toList ++ p.text
  | io e => "IO error: ".toList ++ e.message
  | invalidFolder p =>
    "Invalid source directory: ".toList ++ p.text
      ++ " does not exist or is not a directory".toList
  | outsideRoot p root => p.text ++ " is not below ".toList ++ root.text

/-- The error behind this one, if there is one. -/
def cause? : SourceError → Option OsError
  | io e => some e
  | _ => none

/-- The message that an editor gets. It knows of missing files and of failures only, and a failure
carries the whole message of its cause. -/
def editorMessage : SourceError → Text
  | notFound p => message (notFound p)
  | e => "IO error: ".toList ++ e.message

end SourceError

namespace Source

open FileSystem

variable {m : Type → Type} [Monad m] [FileSystem m]

/-- The text of the document at a relative path. -/
def read (root : Path) (relative : Text) : m (Except SourceError Text) := do
  let p := root.resolve relative
  if ← exists? p then
    match ← readText p with
    | .ok s => return .ok s
    | .error e => return .error (.io e)
  else return .error (.notFound p)

/-- Writes a document at a relative path, making the folders above it. -/
def write (root : Path) (relative content : Text) : m (Except SourceError Unit) := do
  let p := root.resolve relative
  match ← makeParents p with
  | .error e => return .error (.io e)
  | .ok () =>
    match ← writeText p content with
    | .ok () => return .ok ()
    | .error e => return .error (.io e)

/-- Checks that a path leads to a folder. -/
def validateFolder (p : Path) : m (Except SourceError Unit) := do
  if ← isFolder? p then return .ok () else return .error (.invalidFolder p)

/-- What a path adds to the sources: those below it if it leads to a folder, else itself if it has
the name of one. -/
def sourcesAt (below : Path → m (Except OsError (List Path))) (p : Path) :
    m (Except OsError (List Path)) := do
  if ← isFolder? p then below p else return .ok ([p].filter Path.isSource)

def sourcesAmong (below : Path → m (Except OsError (List Path))) :
    List Path → m (Except OsError (List Path))
  | [] => return .ok []
  | p :: ps => do
    match ← sourcesAt below p with
    | .error e => return .error e
    | .ok found =>
      match ← sourcesAmong below ps with
      | .error e => return .error e
      | .ok others => return .ok (found ++ others)

/-- The sources at any depth below a folder, as they are met. A path grows with every folder, so a
`depth` of as many folders as a path can have bytes is never used up. -/
def sourcesBelow : Nat → Path → m (Except OsError (List Path))
  | 0, _ => return .ok []
  | depth + 1, p => do
    match ← readFolder p with
    | .error e => return .error e
    | .ok names => sourcesAmong (sourcesBelow depth) (names.map p.child)

/-- The sources at any depth below a folder, in the order of their paths. -/
def scan (root : Path) : m (Except SourceError (List Path)) := do
  match ← validateFolder root with
  | .error e => return .error e
  | .ok () =>
    match ← sourcesBelow pathLimit root with
    | .error e => return .error (.io e)
    | .ok found => return .ok (found.mergeSort fun p q => !q.before p)

/-- The place of the output of a source file. -/
def outputPath (root file : Path) : Except SourceError Text :=
  match Path.outputPath? root file with
  | some s => .ok s
  | none => .error (.outsideRoot file root)

theorem sourcesBelow_succ (depth : Nat) (p : Path) : sourcesBelow (m := m) (depth + 1) p = (do
    match ← readFolder p with
    | .error e => return .error e
    | .ok names => sourcesAmong (sourcesBelow depth) (names.map p.child)) := rfl

end Source

end BBCode
