import BBCode.Text.Alphanumeric

/-!
# BBCode.Config.Expand

Variables and the home folder in a path. `$name` and `${name}` stand for the value of a variable,
`${name:-default}` for the default if the variable is not set, `$$` for a dollar sign; any other
dollar sign stands for itself. A tilde at the start stands for the home folder. Values are not
expanded again.
-/

namespace BBCode

/-- The surroundings that a program runs in. -/
structure Environment where
  /-- Of two values for one name the first counts. -/
  assignments : List (Text × Text) := []
  /-- The home folder of the account, for when no variable names one. -/
  accountHome : Option Text := none

namespace Environment

/-- The variable that an entry such as `name=value` sets. -/
def ofEntry? (entry : Text) : Option (Text × Text) :=
  (nearest? id ['='] entry).map fun x => (x.1, x.2.2)

/-- The variables of a list whose entries end with the character NUL. -/
def ofEntries (s : Text) : List (Text × Text) := (s.splitAt '\x00').filterMap ofEntry?

def value? (e : Environment) (name : Text) : Option Text := e.assignments.lookup name

def home? (e : Environment) : Option Text :=
  match e.value? "HOME".toList with
  | some (c :: s) => some (c :: s)
  | _ => e.accountHome

end Environment

namespace Expand

/-- Whether the name of a variable that is not in braces goes on with this character. -/
def isNameChar (c : Char) : Bool := c = '_' || isAlphanumeric c

/-- What stands in braces after a dollar sign: a name, perhaps with a default. A default needs a
name before it. -/
def splitDefault (inner : Text) : Text × Option Text :=
  match nearest? id [':', '-'] inner with
  | some (c :: name, _, default) => (c :: name, some default)
  | _ => (inner, none)

/-- The text that the inside of braces stands for. -/
def braced? (e : Environment) (inner : Text) : Option Text :=
  let parts := splitDefault inner
  match e.value? parts.1 with
  | some v => some v
  | none => parts.2

/-- Reads what a dollar sign starts, without the sign: its value, or nothing if it is a variable
that is not set, and the text after it. -/
def readDollar (e : Environment) : Text → Option Text × Text
  | '$' :: s => (some ['$'], s)
  | '\x7b' :: s =>
    match nearest? id ['\x7d'] s with
    | some (inner, _, r) => (braced? e inner, r)
    | none => (some ['$', '\x7b'], s)
  | s =>
    let name := s.takeWhile isNameChar
    if name.isEmpty then (some ['$'], s) else (e.value? name, s.dropWhile isNameChar)

theorem readDollar_length (e : Environment) (s : Text) : (readDollar e s).2.length ≤ s.length := by
  unfold readDollar
  split
  · simp
  · split
    · rename_i s inner mark r h
      obtain ⟨rfl, _⟩ := nearest?_append h
      simp only [List.length_cons, List.length_append]
      omega
    · simp
  · dsimp only
    split
    · exact Nat.le_refl _
    · exact (List.dropWhile_sublist isNameChar).length_le

/-- Expands the variables of a text. There is no result if one of them is not set. -/
def expandVariables? (e : Environment) : Text → Option Text
  | [] => some []
  | c :: s =>
    if c = '$' then
      have : (readDollar e s).2.length ≤ s.length := readDollar_length e s
      match (readDollar e s).1, expandVariables? e (readDollar e s).2 with
      | some v, some r => some (v ++ r)
      | _, _ => none
    else (expandVariables? e s).map (c :: ·)
termination_by s => s.length

/-- Puts the home folder in the place of a tilde that is the whole first name of a path. -/
def expandTilde (e : Environment) (s : Text) : Text :=
  match s, e.home? with
  | '~' :: r, some home => if r.isEmpty || r.head? = some '/' then home ++ r else s
  | _, _ => s

def startsWithTilde (s : Text) : Bool := s.head? = some '~'

/-- Expands a path. If a variable is not set the path stays as it is; a tilde that comes out of a
variable is not expanded. -/
def expandPath (e : Environment) (s : Text) : Text :=
  match expandVariables? e s with
  | none => s
  | some t => if startsWithTilde t && !startsWithTilde s then t else expandTilde e t

end Expand

end BBCode
