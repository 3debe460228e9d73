import BBCode.FileSystem

/-!
# BBCode.Disk

A file tree as a value, and the file operations on it. A path is followed name by name from the
root or from the working folder; a double dot leads back to the folder above.

Main statement: `find?_put` says what an entry put into a folder does to every name.
-/

namespace BBCode

/-- The entries of a folder, one after the other. -/
inductive Folder where
  | empty
  | file (name : Text) (content : ByteArray) (rest : Folder)
  | folder (name : Text) (inside : Folder) (rest : Folder)

inductive Entry where
  | file (content : ByteArray)
  | folder (inside : Folder)

namespace Folder

def find? (name : Text) : Folder → Option Entry
  | empty => none
  | file n c rest => if n = name then some (.file c) else rest.find? name
  | folder n inside rest => if n = name then some (.folder inside) else rest.find? name

def add (name : Text) (rest : Folder) : Entry → Folder
  | .file c => file name c rest
  | .folder inside => folder name inside rest

/-- Puts an entry into a folder, in the place of one of the same name. -/
def put (name : Text) (e : Entry) : Folder → Folder
  | empty => add name empty e
  | file n c rest => if n = name then add name rest e else file n c (rest.put name e)
  | folder n inside rest =>
    if n = name then add name rest e else folder n inside (rest.put name e)

/-- The entry that some names lead to. -/
def entryAt? (f : Folder) : List Text → Option Entry
  | [] => some (.folder f)
  | n :: ns =>
    match f.find? n with
    | some (.folder inside) => inside.entryAt? ns
    | some (.file c) => if ns.isEmpty then some (.file c) else none
    | none => none

/-- Puts an entry into the folder that some names lead to. -/
def putAt (f : Folder) (name : Text) (e : Entry) : List Text → Folder
  | [] => f.put name e
  | n :: ns =>
    match f.find? n with
    | some (.folder inside) => f.put n (.folder (inside.putAt name e ns))
    | _ => f

/-- The names of the entries, in the order in which the folder holds them. -/
def names : Folder → List Text
  | empty => []
  | file n _ rest => n :: rest.names
  | folder n _ rest => n :: rest.names

/-- The files at any depth, each by the names that lead to it. -/
def files : Folder → List (List Text × ByteArray)
  | empty => []
  | file n c rest => ([n], c) :: rest.files
  | folder n inside rest => (inside.files.map fun x => (n :: x.1, x.2)) ++ rest.files

/-- The folders at any depth that hold nothing. -/
def emptyFolders : Folder → List (List Text)
  | empty => []
  | file _ _ rest => rest.emptyFolders
  | folder n empty rest => [n] :: rest.emptyFolders
  | folder n inside rest => (inside.emptyFolders.map (n :: ·)) ++ rest.emptyFolders

theorem find?_add (name k : Text) (rest : Folder) (e : Entry) :
    (add name rest e).find? k = if name = k then some e else rest.find? k := by
  cases e <;> rfl

theorem find?_put (name k : Text) (e : Entry) (f : Folder) :
    (f.put name e).find? k = if name = k then some e else f.find? k := by
  induction f with
  | empty => rw [put, find?_add]
  | file n c rest ih =>
    rw [put]
    by_cases h : n = name
    · subst h
      rw [if_pos rfl, find?_add, find?]
      by_cases hk : n = k
      · rw [if_pos hk, if_pos hk]
      · rw [if_neg hk, if_neg hk, if_neg hk]
    · rw [if_neg h, find?, find?, ih]
      by_cases hk : n = k
      · rw [if_pos hk, if_pos hk, if_neg (fun h' => h (hk.trans h'.symm))]
      · rw [if_neg hk, if_neg hk]
  | folder n inside rest _ ih =>
    rw [put]
    by_cases h : n = name
    · subst h
      rw [if_pos rfl, find?_add, find?]
      by_cases hk : n = k
      · rw [if_pos hk, if_pos hk]
      · rw [if_neg hk, if_neg hk, if_neg hk]
    · rw [if_neg h, find?, find?, ih]
      by_cases hk : n = k
      · rw [if_pos hk, if_pos hk, if_neg (fun h' => h (hk.trans h'.symm))]
      · rw [if_neg hk, if_neg hk]

end Folder

/-- A file tree and a place in it. -/
structure Disk where
  root : Folder := .empty
  /-- The names that lead to the working folder. -/
  working : List Text := []

/-- Where a path leads: a name in a folder, or the folder itself. -/
structure Target where
  folder : List Text
  name : Option Text
  /-- The path ends with a slash, so it asks for a folder. -/
  slash : Bool

namespace Disk

/-- The bytes that a name can have. -/
def nameLimit : Nat := 255

/-- Follows segments from the folder that the names in `here` lead to. -/
def descend (root : Folder) (here : List Text) : List Text → Except OsError (List Text)
  | [] => .ok here
  | s :: ss =>
    if s = Path.dot then descend root here ss
    else if s = Path.dots then descend root here.dropLast ss
    else if nameLimit < s.byteLength then .error .nameTooLong
    else
      match root.entryAt? (here ++ [s]) with
      | some (.folder _) => descend root (here ++ [s]) ss
      | some (.file _) => .error .notFolder
      | none => .error .notFound

def locate (d : Disk) (p : Path) : Except OsError Target :=
  if p.text.contains '\x00' then .error .nulInPath
  else if p.text.isEmpty then .error .notFound
  else if FileSystem.pathLimit ≤ p.text.byteLength then .error .nameTooLong
  else
    let ss := Path.segments p.text
    let start := if p.isAbsolute then [] else d.working
    match ss.getLast? with
    | none => .ok ⟨start, none, true⟩
    | some s =>
      match descend d.root start ss.dropLast with
      | .error e => .error e
      | .ok here =>
        if s = Path.dot then .ok ⟨here, none, true⟩
        else if s = Path.dots then .ok ⟨here.dropLast, none, true⟩
        else if nameLimit < s.byteLength then .error .nameTooLong
        else .ok ⟨here, some s, p.text.getLast? = some '/'⟩

/-- What is where a path leads. -/
def entry (d : Disk) (p : Path) : Except OsError Entry :=
  match d.locate p with
  | .error e => .error e
  | .ok t =>
    match d.root.entryAt? (t.folder ++ t.name.toList) with
    | none => .error .notFound
    | some (.folder f) => .ok (.folder f)
    | some (.file c) => if t.slash then .error .notFolder else .ok (.file c)

def kind? (d : Disk) (p : Path) : Option EntryKind :=
  match d.entry p with
  | .ok (.file _) => some .file
  | .ok (.folder _) => some .folder
  | .error _ => none

def readFile (d : Disk) (p : Path) : Except OsError ByteArray :=
  match d.entry p with
  | .ok (.file c) => .ok c
  | .ok (.folder _) => .error .isFolder
  | .error e => .error e

/-- The disk after writing a file; a refused write leaves it as it was. -/
def writeFile (d : Disk) (p : Path) (content : ByteArray) : Except OsError Disk :=
  match d.locate p with
  | .error e => .error e
  | .ok ⟨_, none, _⟩ => .error .isFolder
  | .ok ⟨here, some n, slash⟩ =>
    if slash then .error .isFolder
    else
      match d.root.entryAt? (here ++ [n]) with
      | some (.folder _) => .error .isFolder
      | _ => .ok { d with root := d.root.putAt n (.file content) here }

/-- The disk after making a folder. -/
def makeFolder (d : Disk) (p : Path) : Except OsError Disk :=
  match d.locate p with
  | .error e => .error e
  | .ok ⟨_, none, _⟩ => .error .exists_
  | .ok ⟨here, some n, _⟩ =>
    match d.root.entryAt? (here ++ [n]) with
    | some _ => .error .exists_
    | none => .ok { d with root := d.root.putAt n (.folder .empty) here }

def readFolder (d : Disk) (p : Path) : Except OsError (List Text) :=
  match d.entry p with
  | .ok (.folder f) => .ok f.names
  | .ok (.file _) => .error .notFolder
  | .error e => .error e

/-- Goes on with the changed disk, or with the same one after a refusal. -/
def change (f : Disk → Except OsError Disk) : StateM Disk (Except OsError Unit) := fun d =>
  match f d with
  | .ok d' => (.ok (), d')
  | .error e => (.error e, d)

instance : FileSystem (StateM Disk) where
  kind? p := fun d => (d.kind? p, d)
  readFile p := fun d => (d.readFile p, d)
  writeFile p content := change fun d => d.writeFile p content
  makeFolder p := change fun d => d.makeFolder p
  readFolder p := fun d => (d.readFolder p, d)

end Disk

end BBCode
