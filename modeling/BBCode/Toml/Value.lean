import BBCode.Text

/-!
# BBCode.Toml.Value

What a TOML document says: values by key, in tables. A table remembers how it was written, because
that decides whether more can be added to it: a header can name a table that so far only longer
headers implied, dotted keys can add to a table that dotted keys made, and nothing can add to an
inline table.
-/

namespace BBCode.Toml

/-- How a table was written. -/
inductive Origin where
  | header
  /-- Only as a part of longer headers. -/
  | implied
  | dotted
  | inlined
  deriving DecidableEq, Repr

inductive Value where
  | text (s : Text)
  | integer (n : Int)
  | float
  | boolean (b : Bool)
  /-- A date, a time or both. -/
  | moment
  | array (items : List Value)
  | table (origin : Origin) (fields : List (Text × Value))
  /-- The tables of a header in double brackets, the last one last. -/
  | tables (items : List (List (Text × Value)))

/-- The content of a table, in the order of writing. -/
abbrev Fields := List (Text × Value)

namespace Fields

/-- Gives a key that is there another value. -/
def replace (k : Text) (v : Value) (fs : Fields) : Fields :=
  fs.map fun f => if f.1 = k then (k, v) else f

/-- Adds a value under a dotted key. The tables on the way are made or must still be open for
dotted keys, and the last of them must be made by dotted keys. -/
def insert? : List Text → Value → Fields → Option Fields
  | [], _, _ => none
  | [k], v, fs =>
    match fs.lookup k with
    | some _ => none
    | none => some (fs ++ [(k, v)])
  | k :: k' :: ks, v, fs =>
    match fs.lookup k with
    | none => (insert? (k' :: ks) v []).map fun sub => fs ++ [(k, .table .dotted sub)]
    | some (.table .dotted sub) =>
      (insert? (k' :: ks) v sub).map fun sub => fs.replace k (.table .dotted sub)
    | some (.table .implied sub) =>
      if ks.isEmpty then none
      else (insert? (k' :: ks) v sub).map fun sub => fs.replace k (.table .implied sub)
    | some (.tables items) =>
      if ks.isEmpty then none
      else
        match items.getLast? with
        | none => none
        | some sub =>
          (insert? (k' :: ks) v sub).map fun sub => fs.replace k (.tables (items.dropLast ++ [sub]))
    | some _ => none

/-- Changes the table that a header names, or the last of its tables. -/
def modifyAt? (f : Fields → Option Fields) : List Text → Fields → Option Fields
  | [], fs => f fs
  | k :: ks, fs =>
    match fs.lookup k with
    | some (.table o sub) => (modifyAt? f ks sub).map fun sub => fs.replace k (.table o sub)
    | some (.tables items) =>
      match items.getLast? with
      | none => none
      | some sub =>
        (modifyAt? f ks sub).map fun sub => fs.replace k (.tables (items.dropLast ++ [sub]))
    | _ => none

/-- Changes the table that the last part of a header is in, making the tables that the header
implies. -/
def modifyAbove? (f : Fields → Option Fields) : List Text → Fields → Option Fields
  | [], fs => f fs
  | k :: ks, fs =>
    match fs.lookup k with
    | none => (modifyAbove? f ks []).map fun sub => fs ++ [(k, .table .implied sub)]
    | some (.table .inlined _) => none
    | some (.table o sub) => (modifyAbove? f ks sub).map fun sub => fs.replace k (.table o sub)
    | some (.tables items) =>
      match items.getLast? with
      | none => none
      | some sub =>
        (modifyAbove? f ks sub).map fun sub => fs.replace k (.tables (items.dropLast ++ [sub]))
    | some _ => none

/-- Opens the table of a header. -/
def openTable? (k : Text) (fs : Fields) : Option Fields :=
  match fs.lookup k with
  | none => some (fs ++ [(k, .table .header [])])
  | some (.table .implied sub) => some (fs.replace k (.table .header sub))
  | some _ => none

/-- Opens another table of a header in double brackets. -/
def openTables? (k : Text) (fs : Fields) : Option Fields :=
  match fs.lookup k with
  | none => some (fs ++ [(k, .tables [[]])])
  | some (.tables items) => some (fs.replace k (.tables (items ++ [[]])))
  | some _ => none

end Fields

end BBCode.Toml
