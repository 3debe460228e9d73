import BBCode.Text

/-!
# BBCode.Options

What a caller can choose about rendering.
-/

namespace BBCode

/-- Where a code region ends. -/
inductive CodeMatching where
  /-- At the nearest closing tag. -/
  | nearest
  /-- At the last closing tag of the document. -/
  | greedy
  deriving DecidableEq, Repr

structure Options where
  /-- The values of size tags that are rendered; a tag with another value stays as it is. -/
  allowedSizes : List UInt16 := [50, 85, 100, 150]
  codeBlocks : CodeMatching := .nearest
  /-- What a user id is appended to in the link to a profile. -/
  profileUrl : Text := "https://osu.ppy.sh/users/".toList
  /-- The flag of a widget that is seen for the first time. -/
  expandByDefault : Bool := false
  deriving DecidableEq, Repr

namespace CodeMatching

def name : CodeMatching → Text
  | nearest => "nearest".toList
  | greedy => "greedy".toList

def ofName? (s : Text) : Option CodeMatching :=
  if s = nearest.name then some nearest else if s = greedy.name then some greedy else none

theorem ofName?_name (m : CodeMatching) : ofName? m.name = some m := by
  cases m <;> decide

end CodeMatching

end BBCode
