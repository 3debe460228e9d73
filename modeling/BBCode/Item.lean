import BBCode.Rule

/-!
# BBCode.Item

Lists. A list tag becomes a list element; then every marker `[*]` of the document starts an item,
which runs up to the next marker or to the end of a list element, whichever comes first. A marker
with neither after it stays as it is.

Main statement: `readBound?_length`, a bound of an item is never empty.
-/

namespace BBCode.Item

/-- What bounds an item. -/
inductive Bound where
  | marker
  /-- The end of a list element, as it is spelled. -/
  | listEnd (source : Text)
  deriving DecidableEq, Repr

def markerText : Text := "[*]".toList

def Bound.source : Bound → Text
  | marker => markerText
  | listEnd s => s

def readBound? (s : Text) : Option (Bound × Text) :=
  match readWord? id markerText s with
  | some (_, r) => some (.marker, r)
  | none =>
    ((readWord? foldCase "</ol>".toList s).or (readWord? foldCase "</ul>".toList s)).map
      fun x => (.listEnd x.1, x.2)

theorem readBound?_length {s r : Text} {b : Bound} (h : readBound? s = some (b, r)) :
    r.length < s.length := by
  unfold readBound? at h
  split at h
  · rename_i w q hq
    have h1 := readWord?_length hq
    have h2 : markerText.length = 3 := rfl
    cases h
    omega
  · simp only [Option.map_eq_some_iff, Prod.mk.injEq, Option.or_eq_some_iff] at h
    obtain ⟨x, hx, _, rfl⟩ := h
    have h3 : "</ol>".toList.length = 5 := rfl
    have h4 : "</ul>".toList.length = 5 := rfl
    rcases hx with hx | ⟨_, hx⟩
    · have := readWord?_length hx
      omega
    · have := readWord?_length hx
      omega

def pattern : Pattern Char Bound where
  read? := readBound?
  shorter := readBound?_length

/-- The text before the first bound, and the pieces from that bound on, if there is one. -/
def upToBound? : List (Piece Char Bound) → Option (Text × List (Piece Char Bound))
  | [] => none
  | .plain c :: ps => (upToBound? ps).map fun x => (c :: x.1, x.2)
  | .found b :: ps => some ([], .found b :: ps)

theorem upToBound?_length {ps rest : List (Piece Char Bound)} {body : Text}
    (h : upToBound? ps = some (body, rest)) : rest.length ≤ ps.length := by
  induction ps generalizing body with
  | nil => simp [upToBound?] at h
  | cons p ps ih =>
    cases p with
    | plain c =>
      simp only [upToBound?, Option.map_eq_some_iff, Prod.mk.injEq] at h
      obtain ⟨x, hx, _, rfl⟩ := h
      have := ih hx
      simp only [List.length_cons]
      omega
    | found b =>
      cases h
      exact Nat.le_refl _

def element (body : Text) : Text := Rule.between "<li>" "</li>" body.trimBreaks

/-- Writes pieces, every marker with a bound after it as an item. -/
def write : List (Piece Char Bound) → Text
  | [] => []
  | .plain c :: ps => c :: write ps
  | .found (.listEnd s) :: ps => s ++ write ps
  | .found .marker :: ps =>
    match h : upToBound? ps with
    | some (body, rest) =>
      have : rest.length ≤ ps.length := upToBound?_length h
      element body ++ write rest
    | none => markerText ++ write ps
termination_by ps => ps.length

def split (s : Text) : Text := write (pattern.pieces s)

def orderedList (_kind body : Text) : Text := Rule.between "<ol>" "</ol>" body.trimBreaks

def unorderedList (body : Text) : Text :=
  Rule.between "<ol class=\"unordered\">" "</ol>" body.trimBreaks

/-- The rules for list tags. The kind of an ordered list can be anything but empty. -/
def rules : List Rule :=
  [.valued "list-ordered" "list" .filled orderedList,
   .bare "list-unordered" "list" unorderedList]

/-- Renders the lists of a document. -/
def resolve (o : Options) (x : Text × Tally) : Text × Tally :=
  let y := Rule.applyAll o rules x
  (split y.1, y.2)

end BBCode.Item
