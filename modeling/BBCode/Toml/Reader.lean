import BBCode.Toml.Scalar

/-!
# BBCode.Toml.Reader

Reading TOML documents: first the statements of a document, each a header or a key with its value,
then the tables that the statements build up. Nothing is read from a document with a fault.

Main statements: `build_cons` says how statements build up a document, and `limitParts_eq_ok` which
keys are short enough.
-/

namespace BBCode.Toml

def isWhite (c : Char) : Bool := c = ' ' || c = '\t'

def skipWhite (s : Text) : Text := s.dropWhile isWhite

/-- Reads to the end of a line, where only a comment can stand; the result is the text from the
line end on. -/
def endOfLine? (s : Text) : Option Text :=
  match skipWhite s with
  | '#' :: r =>
    match r.dropWhile isPrintable with
    | [] => some []
    | '\n' :: q => some ('\n' :: q)
    | '\r' :: '\n' :: q => some ('\n' :: q)
    | _ => none
  | [] => some []
  | '\n' :: q => some ('\n' :: q)
  | '\r' :: '\n' :: q => some ('\n' :: q)
  | _ => none

/-- Skips blanks, line ends and comments, over at most `fuel` lines. -/
def skipLinesUpTo? : Nat → Text → Option Text
  | 0, _ => none
  | fuel + 1, s =>
    match skipWhite s with
    | '#' :: r =>
      match endOfLine? ('#' :: r) with
      | some ('\n' :: q) => skipLinesUpTo? fuel q
      | some q => some q
      | none => none
    | '\n' :: q => skipLinesUpTo? fuel q
    | '\r' :: '\n' :: q => skipLinesUpTo? fuel q
    | r => some r

/-- Skips blanks, line ends and comments. -/
def skipLines? (s : Text) : Option Text := skipLinesUpTo? (s.length + 1) s

/-! ## Keys -/

def isKeyChar (c : Char) : Bool := c.isAlphanum || c = '-' || c = '_'

/-- Whether a part of a key without quotes goes on with this character. -/
def isKeyWordChar (c : Char) : Bool :=
  isWordChar c && !(c = '.' || c = '=' || c = '[' || c = '\x7b')

/-- Reads one part of a key. -/
def readKeyPart? (s : Text) : Reading Text :=
  if s.head? = some '"' || s.head? = some '\'' then readQuoted? s
  else
    let k := s.takeWhile isKeyWordChar
    if k.isEmpty then none
    else some (orMalformed (if k.all isKeyChar then some k else none), s.dropWhile isKeyWordChar)

/-- Reads the parts of a key, at most `fuel` of them, with dots between. Blanks around the parts do
not count. -/
def readKeyParts? : Nat → Text → Reading (List Text)
  | 0, _ => none
  | fuel + 1, s =>
    match readKeyPart? (skipWhite s) with
    | none => none
    | some (k, r) =>
      match skipWhite r with
      | '.' :: q => (readKeyParts? fuel q).after (· :: ·) k
      | q => some (k.map ([·]), q)

/-- How many parts a key can have. -/
def keyLimit : Nat := 80

def limitParts (ks : List Text) : Except Fault (List Text) :=
  if keyLimit < ks.length then .error .tooDeep else .ok ks

/-- Reads a key. -/
def readKey? (s : Text) : Reading (List Text) :=
  (readKeyParts? (s.length + 1) s).check limitParts

/-! ## Values -/

/-- Reads the items of an array after its bracket, at most `fuel` of them. -/
def readItems? (value? : Text → Reading Value) : Nat → Text → Reading (List Value)
  | 0, _ => none
  | fuel + 1, s =>
    match skipLines? s with
    | none => none
    | some (']' :: r) => some (.ok [], r)
    | some r =>
      match value? r with
      | none => none
      | some (v, q) =>
        match skipLines? q with
        | some (',' :: q) => (readItems? value? fuel q).after (· :: ·) v
        | some (']' :: q) => some (v.map ([·]), q)
        | _ => none

/-- Reads a key and its value, with `gap` around the sign between them. -/
def readField? (gap : Text → Option Text) (value? : Text → Reading Value) (s : Text) :
    Reading (List Text × Value) :=
  match readKey? s with
  | none => none
  | some (k, r) =>
    match gap r with
    | some ('=' :: r) =>
      match gap r with
      | none => none
      | some r => (value? r).after (·, ·) k
    | _ => none

/-- Reads the fields of an inline table, at most `fuel` of them, and adds them to those in `fs`. -/
def readFields? (value? : Text → Reading Value) :
    Nat → Except Fault Fields → Text → Reading Fields
  | 0, _, _ => none
  | fuel + 1, fs, s =>
    match skipLines? s with
    | none => none
    | some ('\x7d' :: r) => some (fs, r)
    | some r =>
      match readField? skipLines? value? r with
      | none => none
      | some (field, q) =>
        let fs := do
          let fs ← fs
          let (k, v) ← field
          orMalformed (fs.insert? k v)
        match skipLines? q with
        | some (',' :: q) => readFields? value? fuel fs q
        | some ('\x7d' :: q) => some (fs, q)
        | _ => none

/-- Reads a value in which brackets are at most `depth` deep. -/
def readValue? : Nat → Text → Reading Value
  | depth, s =>
    match s with
    | '"' :: _ => (readString? s).map .text
    | '\'' :: _ => (readString? s).map .text
    | '[' :: r =>
      match depth with
      | 0 => none
      | depth + 1 =>
        (readItems? (readValue? depth) (r.length + 1) r).map .array
    | '\x7b' :: r =>
      match depth with
      | 0 => none
      | depth + 1 =>
        (readFields? (readValue? depth) (r.length + 1) (.ok []) r).map (.table .inlined)
    | _ =>
      let x := readWord s
      if x.1.isEmpty then none else some (orMalformed (ofWord? x.1), x.2)

/-- How deep the brackets of a value can be. -/
def nestingLimit : Nat := 80

/-! ## Documents -/

inductive Statement where
  | field (key : List Text) (value : Value)
  | header (key : List Text)
  /-- A header in double brackets. -/
  | item (key : List Text)

/-- Reads a header, a double one first. -/
def readHeader? : Text → Reading Statement
  | '[' :: '[' :: s =>
    match readKey? s with
    | some (k, ']' :: ']' :: r) => some (k.map .item, r)
    | _ => none
  | '[' :: s =>
    match readKey? s with
    | some (k, ']' :: r) => some (k.map .header, r)
    | _ => none
  | _ => none

def readStatement? (s : Text) : Reading Statement :=
  match s with
  | '[' :: _ => readHeader? s
  | _ =>
    (readField? (some ∘ skipWhite) (readValue? nestingLimit) s).map fun f => .field f.1 f.2

/-- Reads the statements of a document, at most `fuel` of them. -/
def readStatements? : Nat → Text → Option (List (Except Fault Statement))
  | 0, _ => none
  | fuel + 1, s =>
    match skipLines? s with
    | none => none
    | some [] => some []
    | some r =>
      match readStatement? r with
      | none => none
      | some (st, q) =>
        match endOfLine? q with
        | none => none
        | some q => (readStatements? fuel q).map (st :: ·)

/-- A document being built up: all its fields, and the header that the next fields belong to. -/
structure Draft where
  fields : Fields := []
  header : List Text := []

/-- Adds a statement to a document. -/
def Draft.add? (d : Draft) : Statement → Option Draft
  | .field k v =>
    (d.fields.modifyAt? (Fields.insert? k v) d.header).map fun fs => { d with fields := fs }
  | .header k =>
    match k.getLast? with
    | none => none
    | some last =>
      (d.fields.modifyAbove? (Fields.openTable? last) k.dropLast).map fun fs => ⟨fs, k⟩
  | .item k =>
    match k.getLast? with
    | none => none
    | some last =>
      (d.fields.modifyAbove? (Fields.openTables? last) k.dropLast).map fun fs => ⟨fs, k⟩

/-- The fields that statements build up, or the first fault among them. -/
def build (d : Draft) : List (Except Fault Statement) → Except Fault Fields
  | [] => .ok d.fields
  | .error e :: _ => .error e
  | .ok st :: sts =>
    match d.add? st with
    | none => .error .malformed
    | some d => build d sts

/-- The byte order mark, which can stand before a document. -/
def byteOrderMark : Char := '\ufeff'

/-- The fields of a document. -/
def read (s : Text) : Except Fault Fields :=
  let s := if s.head? = some byteOrderMark then s.tail else s
  match readStatements? (s.length + 1) s with
  | none => .error .malformed
  | some sts => build {} sts

theorem limitParts_eq_ok {ks r : List Text} :
    limitParts ks = .ok r ↔ ks = r ∧ ks.length ≤ keyLimit := by
  unfold limitParts
  split
  · simp only [reduceCtorEq, false_iff, not_and]
    omega
  · simp only [Except.ok.injEq, iff_self_and]
    omega

theorem build_cons (d : Draft) (st : Statement) (sts : List (Except Fault Statement)) :
    build d (.ok st :: sts) = (orMalformed (d.add? st)).bind fun d => build d sts := by
  rw [build]
  cases d.add? st <;> rfl

end BBCode.Toml
