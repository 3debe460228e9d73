import BBCode.Guard
import BBCode.Html

/-!
# BBCode.Autolink

Bare `http` and `https` URLs become links. A URL right after a double quote or an equals sign is
taken to be the value of an attribute, and one inside an `a` element is linked already; both stay
as they are. Code regions are still behind their placeholders here, and no URL runs into one.

Main statement: `readSpot?_source`, what is read and what follows spell the text.
-/

namespace BBCode.Autolink

/-- A stretch that holds URLs: one to be linked, or one to be left alone. -/
inductive Spot where
  | url (s : Text)
  | kept (s : Text)
  deriving DecidableEq, Repr

def Spot.source : Spot → Text
  | url s => s
  | kept s => s

/-- Whether a URL can go on with this character. -/
def isUrlChar (c : Char) : Bool :=
  !(isBlank c || c = '<' || c = '>' || c = '"' || Guarded.isReserved c)

/-- Reads a URL: a scheme, whatever its letter case, and at least one more character. -/
def readUrl? (s : Text) : Option (Text × Text) :=
  match (readWord? foldCase "https://".toList s).or (readWord? foldCase "http://".toList s) with
  | none => none
  | some (scheme, r) =>
    let rest := r.takeWhile isUrlChar
    if rest.isEmpty then none else some (scheme ++ rest, r.dropWhile isUrlChar)

/-- Reads an `a` element that has attributes, up to its nearest end. -/
def readAnchor? (s : Text) : Option (Text × Text) :=
  match readWord? foldCase "<a".toList s with
  | none => none
  | some (head, r) =>
    if !(r.head?.any isBlank) then none
    else
      match nearest? id ['>'] r with
      | none => none
      | some (attributes, mark, r) =>
        (nearest? foldCase "</a>".toList r).map fun x =>
          (head ++ attributes ++ mark ++ x.1 ++ x.2.1, x.2.2)

/-- Reads a URL in the place of an attribute value, with the mark before it. -/
def readValue? : Text → Option (Text × Text)
  | [] => none
  | c :: s =>
    if c = '"' || c = '=' then (readUrl? s).map fun x => (c :: x.1, x.2) else none

def readSpot? (s : Text) : Option (Spot × Text) :=
  match (readAnchor? s).or (readValue? s) with
  | some (kept, r) => some (.kept kept, r)
  | none => (readUrl? s).map fun x => (.url x.1, x.2)

theorem readUrl?_source {s a r : Text} (h : readUrl? s = some (a, r)) : s = a ++ r ∧ a ≠ [] := by
  unfold readUrl? at h
  split at h
  · cases h
  · rename_i scheme q hq
    have hs : s = scheme ++ q := by
      rcases Option.or_eq_some_iff.1 hq with hq | ⟨_, hq⟩
      · exact (readWord?_eq_some.1 hq).2
      · exact (readWord?_eq_some.1 hq).2
    dsimp only at h
    split at h
    · cases h
    · rename_i hne
      cases h
      refine ⟨by rw [hs, List.append_assoc, List.takeWhile_append_dropWhile], ?_⟩
      intro hnil
      simp only [List.append_eq_nil_iff] at hnil
      simp [hnil.2] at hne

theorem readAnchor?_source {s a r : Text} (h : readAnchor? s = some (a, r)) :
    s = a ++ r ∧ a ≠ [] := by
  unfold readAnchor? at h
  split at h
  · cases h
  · rename_i head q hq
    obtain ⟨hw, rfl⟩ := readWord?_eq_some.1 hq
    split at h
    · cases h
    · split at h
      · cases h
      · rename_i attributes mark q' hn
        obtain ⟨rfl, _⟩ := nearest?_append hn
        simp only [Option.map_eq_some_iff, Prod.mk.injEq] at h
        obtain ⟨x, hx, rfl, rfl⟩ := h
        obtain ⟨rfl, _⟩ := nearest?_append hx
        refine ⟨by simp, ?_⟩
        intro hnil
        simp only [List.append_eq_nil_iff] at hnil
        simp [hnil.1.1.1.1] at hw

theorem readValue?_source {s a r : Text} (h : readValue? s = some (a, r)) :
    s = a ++ r ∧ a ≠ [] := by
  unfold readValue? at h
  split at h
  · cases h
  · split at h
    · simp only [Option.map_eq_some_iff, Prod.mk.injEq] at h
      obtain ⟨x, hx, rfl, rfl⟩ := h
      obtain ⟨rfl, _⟩ := readUrl?_source hx
      exact ⟨by simp, by simp⟩
    · cases h

theorem readSpot?_source {s r : Text} {x : Spot} (h : readSpot? s = some (x, r)) :
    s = x.source ++ r ∧ x.source ≠ [] := by
  unfold readSpot? at h
  split at h
  · rename_i kept q hq
    cases h
    rcases Option.or_eq_some_iff.1 hq with hq | ⟨_, hq⟩
    · exact readAnchor?_source hq
    · exact readValue?_source hq
  · simp only [Option.map_eq_some_iff, Prod.mk.injEq] at h
    obtain ⟨y, hy, rfl, rfl⟩ := h
    exact readUrl?_source hy

def pattern : Pattern Char Spot where
  read? := readSpot?
  shorter h := by
    obtain ⟨rfl, hne⟩ := readSpot?_source h
    have := List.length_pos_iff.2 hne
    simp only [List.length_append]
    omega

def write : Spot → Text
  | .url s => Html.anchor s
  | .kept s => s

/-- Links the bare URLs of a text. -/
def autolink (s : Text) : Text := pattern.substitute write s

end BBCode.Autolink
