import BBCode.Text.Pattern

/-!
# BBCode.Rule.Pair

Pairs of an opening and a closing tag around a body. An opening tag is `[name]`, or `[name` with
a value up to the first mark that ends it; the body runs to the nearest `[/name]`. Letter case
does not matter in names.

Main statement: `readPair?_source`, an occurrence and the text after it spell the text.
-/

namespace BBCode

/-- An occurrence that a rule replaces: its opening tag as it is spelled, the value in it, the
body and the closing tag. A fixed word is an opening tag alone. -/
structure Region where
  opening : Text
  param : Text := []
  body : Text := []
  closing : Text := []
  deriving DecidableEq, Repr

namespace Region

def source (r : Region) : Text := r.opening ++ r.body ++ r.closing

end Region

/-- How the value of an opening tag is written: the marks before and after it, and which values
there are. -/
structure ValueForm where
  before : Text
  after : Text
  accepts : Text → Bool

namespace ValueForm

/-- `[name=value]` with any value. -/
def any : ValueForm := ⟨['='], [']'], fun _ => true⟩

/-- `[name=value]` with a value that is not empty. -/
def filled : ValueForm := ⟨['='], [']'], fun v => !v.isEmpty⟩

/-- `[name="value"]` with any value. -/
def quoted : ValueForm := ⟨['=', '"'], ['"', ']'], fun _ => true⟩

/-- `[name=value]` with one of the given values. -/
def oneOf (values : List Text) : ValueForm := ⟨['='], [']'], fun v => values.contains v⟩

end ValueForm

/-- A pair of tags. The name is in small letters; without a value form the tag has no value. -/
structure TagPair where
  name : Text
  value : Option ValueForm

namespace TagPair

def closer (t : TagPair) : Text := '[' :: '/' :: t.name ++ [']']

/-- Reads an opening tag: its spelling, its value, the text after it. -/
def readOpening? (t : TagPair) (s : Text) : Option (Text × Text × Text) :=
  match t.value with
  | none => (readWord? foldCase ('[' :: t.name ++ [']']) s).map fun x => (x.1, [], x.2)
  | some v =>
    match readWord? foldCase ('[' :: t.name ++ v.before) s with
    | none => none
    | some (head, r) =>
      match nearest? id v.after r with
      | none => none
      | some (value, mark, rest) =>
        if v.accepts value then some (head ++ value ++ mark, value, rest) else none

/-- Reads an opening tag, the body and the nearest closing tag. -/
def readPair? (t : TagPair) (s : Text) : Option (Region × Text) :=
  match t.readOpening? s with
  | none => none
  | some (opening, param, r) =>
    (nearest? foldCase t.closer r).map fun x => (⟨opening, param, x.1, x.2.1⟩, x.2.2)

theorem readOpening?_source {t : TagPair} {s o p r : Text}
    (h : t.readOpening? s = some (o, p, r)) : s = o ++ r ∧ o ≠ [] := by
  unfold readOpening? at h
  split at h
  · simp only [Option.map_eq_some_iff, Prod.mk.injEq] at h
    obtain ⟨x, hx, rfl, _, rfl⟩ := h
    obtain ⟨hw, hs⟩ := readWord?_eq_some.1 hx
    refine ⟨hs, ?_⟩
    intro hnil
    simp [hnil] at hw
  · split at h
    · cases h
    · rename_i head q hq
      obtain ⟨hw, rfl⟩ := readWord?_eq_some.1 hq
      split at h
      · cases h
      · rename_i value mark rest hn
        obtain ⟨rfl, _⟩ := nearest?_append hn
        split at h
        · cases h
          refine ⟨by simp, ?_⟩
          intro hnil
          simp only [List.append_eq_nil_iff] at hnil
          simp [hnil.1.1] at hw
        · cases h

theorem readPair?_source {t : TagPair} {s r : Text} {x : Region}
    (h : t.readPair? s = some (x, r)) : s = x.source ++ r ∧ x.opening ≠ [] := by
  unfold readPair? at h
  split at h
  · cases h
  · rename_i o p q hq
    obtain ⟨rfl, ho⟩ := readOpening?_source hq
    simp only [Option.map_eq_some_iff, Prod.mk.injEq] at h
    obtain ⟨⟨b, c, r'⟩, hy, rfl, rfl⟩ := h
    obtain ⟨rfl, _⟩ := nearest?_append hy
    exact ⟨by simp [Region.source], ho⟩

theorem readPair?_length {t : TagPair} {s r : Text} {x : Region}
    (h : t.readPair? s = some (x, r)) : r.length < s.length := by
  obtain ⟨rfl, ho⟩ := readPair?_source h
  have := List.length_pos_iff.2 ho
  simp only [Region.source, List.length_append]
  omega

/-- The pair as a pattern. -/
def pattern (t : TagPair) : Pattern Char Region where
  read? := t.readPair?
  shorter := t.readPair?_length

end TagPair

end BBCode
