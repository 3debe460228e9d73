import BBCode.Html
import BBCode.Rule.Pair
import BBCode.Tally
import BBCode.Text.Trim

/-!
# BBCode.Rule

Replacement rules. A rule replaces every occurrence of its pattern, from left to right and without
overlap; whatever it does not match it leaves as it is. The only state a rule can use is the
number of hover cards handed out so far.

Main statements: `apply_replace` and `apply_numbered` say what a rule makes of a text.
-/

namespace BBCode

/-- What an occurrence is replaced by. -/
inductive Action where
  | replace (f : Region → Text)
  /-- Each occurrence takes the next hover card. -/
  | numbered (f : Options → Nat → Region → Text)

structure Rule where
  name : String
  pattern : Pattern Char Region
  action : Action

namespace Rule

def apply (o : Options) (r : Rule) (x : Text × Tally) : Text × Tally :=
  match r.action with
  | .replace f => (r.pattern.substitute f x.1, x.2)
  | .numbered f =>
    let y := Piece.fillFrom (f o) x.2.cards (r.pattern.pieces x.1)
    (y.1, { x.2 with cards := y.2 })

/-- Applies rules in order, each to what the one before it made. -/
def applyAll (o : Options) (rs : List Rule) (x : Text × Tally) : Text × Tally :=
  rs.foldl (fun y r => r.apply o y) x

theorem apply_replace (o : Options) (name : String) (p : Pattern Char Region)
    (f : Region → Text) (x : Text × Tally) :
    (Rule.mk name p (.replace f)).apply o x = (p.substitute f x.1, x.2) := rfl

theorem apply_numbered (o : Options) (name : String) (p : Pattern Char Region)
    (f : Options → Nat → Region → Text) (x : Text × Tally) :
    ((Rule.mk name p (.numbered f)).apply o x).1 =
      (Piece.fillFrom (f o) x.2.cards (p.pieces x.1)).1 := rfl

/-- Replaces a word by another. -/
def respell (name : String) (f : Char → Char) (w : Text) (hw : w ≠ []) (by_ : Text) : Rule :=
  ⟨name, (Pattern.word f w hw).map fun s => { opening := s }, .replace fun _ => by_⟩

/-- Replaces a pair of tags without a value. -/
def bare (name : String) (tag : String) (f : Text → Text) : Rule :=
  ⟨name, (TagPair.mk tag.toList none).pattern, .replace fun r => f r.body⟩

/-- Replaces a pair of tags with a value. -/
def valued (name : String) (tag : String) (form : ValueForm) (f : Text → Text → Text) : Rule :=
  ⟨name, (TagPair.mk tag.toList (some form)).pattern, .replace fun r => f r.param r.body⟩

/-- Puts a body between two texts. -/
def between (before after : String) (body : Text) : Text :=
  before.toList ++ body ++ after.toList

/-- Reads a closing tag of HTML with the blanks and the line break after it. -/
def readTagBreak? (tag : Text) (s : Text) : Option (Text × Text) :=
  match readWord? id tag s with
  | none => none
  | some (_, r) =>
    (readWord? id lineBreak (r.dropWhile isBlank)).map fun x =>
      (tag ++ r.takeWhile isBlank ++ x.1, x.2)

theorem readTagBreak?_length {tag s a r : Text} (h : readTagBreak? tag s = some (a, r)) :
    r.length < s.length := by
  unfold readTagBreak? at h
  split at h
  · cases h
  · rename_i w q hq
    have h1 := readWord?_length hq
    simp only [Option.map_eq_some_iff, Prod.mk.injEq] at h
    obtain ⟨x, hx, _, rfl⟩ := h
    have h2 := readWord?_length hx
    have h3 : (q.dropWhile isBlank).length ≤ q.length :=
      (List.dropWhile_sublist isBlank).length_le
    have h4 : lineBreak.length = 4 := rfl
    omega

/-- A closing tag of HTML with the blanks and the line break after it. -/
def tagBreak (tag : Text) : Pattern Char Text where
  read? := readTagBreak? tag
  shorter := readTagBreak?_length

/-- Drops the line break after a closing tag of HTML. -/
def dropBreakAfter (name tag : String) : Rule :=
  ⟨name, (tagBreak tag.toList).map fun s => { opening := s }, .replace fun _ => tag.toList⟩

end Rule

end BBCode
