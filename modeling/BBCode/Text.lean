/-!
# BBCode.Text

Documents as lists of Unicode characters, and the few ways of reading them that every later
module uses: a word at the front of a text, the nearest and the farthest place where a word
occurs, letter case folding and blank characters.

Main statements: `readWord?_eq_some` says exactly when a word is read; `nearest?_append` and
`farthest?_append` say that a found word splits its text without loss, and `join_splitAt` that
cutting a text at a character can be undone.
-/

namespace BBCode

/-- A document or a part of one. -/
abbrev Text := List Char

/-- The letter that `c` is compared as where case does not matter. Besides the ASCII capitals,
the long s and the Kelvin sign fold to ASCII letters; no other character does. -/
def foldCase (c : Char) : Char :=
  if c = '\u017f' then 's' else if c = '\u212a' then 'k' else c.toLower

/-- The code points that count as white space. -/
def blankRanges : List (Nat × Nat) :=
  [(0x9, 0xd), (0x20, 0x20), (0x85, 0x85), (0xa0, 0xa0), (0x1680, 0x1680), (0x2000, 0x200a),
   (0x2028, 0x2029), (0x202f, 0x202f), (0x205f, 0x205f), (0x3000, 0x3000)]

def isBlank (c : Char) : Bool :=
  blankRanges.any fun r => r.1 ≤ c.toNat && c.toNat ≤ r.2

/-- A number in decimal, without leading zeros. -/
def decimal (n : Nat) : Text := Nat.toDigits 10 n

namespace Text

/-- The number of bytes a text takes in UTF-8. -/
def byteLength (s : Text) : Nat := s.foldr (fun c n => c.utf8Size + n) 0

def toBytes (s : Text) : List UInt8 := s.flatMap String.utf8EncodeChar

/-- The parts of a text between the occurrences of a character; there is at least one. -/
def splitAt (sep : Char) : Text → List Text
  | [] => [[]]
  | c :: s =>
    if c = sep then [] :: splitAt sep s
    else
      match splitAt sep s with
      | [] => [[c]]
      | p :: ps => (c :: p) :: ps

/-- The texts of a list with a separator between them. -/
def join (sep : Text) : List Text → Text
  | [] => []
  | [s] => s
  | s :: t :: ts => s ++ sep ++ join sep (t :: ts)

/-- A text without the blank characters at its ends. -/
def trimBlanks (s : Text) : Text := ((s.dropWhile isBlank).reverse.dropWhile isBlank).reverse

/-- A text made up with spaces to a width. A wider one stays as it is. -/
def padEnd (width : Nat) (s : Text) : Text := s ++ List.replicate (width - s.length) ' '

/-- Equality up to the case of ASCII letters. -/
def sameAscii (a b : Text) : Bool := a.map Char.toLower = b.map Char.toLower

theorem splitAt_ne_nil (sep : Char) (s : Text) : splitAt sep s ≠ [] := by
  cases s with
  | nil => simp [splitAt]
  | cons c s =>
    rw [splitAt]
    split
    · simp
    · split <;> simp

theorem join_splitAt (sep : Char) (s : Text) : join [sep] (splitAt sep s) = s := by
  induction s with
  | nil => rfl
  | cons c s ih =>
    rw [splitAt]
    cases hs : splitAt sep s with
    | nil => exact absurd hs (splitAt_ne_nil sep s)
    | cons p ps =>
      rw [hs] at ih
      by_cases hc : c = sep
      · rw [if_pos hc, join, ih, hc]
        rfl
      · rw [if_neg hc]
        cases ps with
        | nil => simpa [join] using ih
        | cons q qs => simpa [join] using ih

end Text

/-- Reads the word `w` off the front of a text, each character compared as `f` makes it. The
result is the word as it is spelled there and the text after it. -/
def readWord? (f : Char → Char) : Text → Text → Option (Text × Text)
  | [], s => some ([], s)
  | _ :: _, [] => none
  | p :: w, c :: s =>
    if f c = p then (readWord? f w s).map fun x => (c :: x.1, x.2) else none

/-- The nearest place where `w` is read: the text before it, its spelling, the text after it. -/
def nearest? (f : Char → Char) (w : Text) : Text → Option (Text × Text × Text)
  | [] => (readWord? f w []).map fun x => ([], x)
  | c :: s =>
    match readWord? f w (c :: s) with
    | some x => some ([], x)
    | none => (nearest? f w s).map fun x => (c :: x.1, x.2)

/-- The last place where `w` is read: the text before it, its spelling, the text after it. -/
def farthest? (f : Char → Char) (w : Text) : Text → Option (Text × Text × Text)
  | [] => (readWord? f w []).map fun x => ([], x)
  | c :: s =>
    match farthest? f w s with
    | some x => some (c :: x.1, x.2)
    | none => (readWord? f w (c :: s)).map fun x => ([], x)

theorem readWord?_eq_some {f : Char → Char} {w s a r : Text} :
    readWord? f w s = some (a, r) ↔ a.map f = w ∧ s = a ++ r := by
  induction w generalizing s a with
  | nil =>
    simp only [readWord?, Option.some.injEq, Prod.mk.injEq, List.map_eq_nil_iff]
    constructor
    · rintro ⟨rfl, rfl⟩; exact ⟨rfl, rfl⟩
    · rintro ⟨rfl, rfl⟩; exact ⟨rfl, rfl⟩
  | cons p w ih =>
    cases s with
    | nil =>
      simp only [readWord?, reduceCtorEq, false_iff]
      rintro ⟨ha, hs⟩
      obtain ⟨rfl, rfl⟩ := List.append_eq_nil_iff.1 hs.symm
      simp at ha
    | cons c s =>
      by_cases hp : f c = p
      · simp only [readWord?, hp, if_true, Option.map_eq_some_iff, Prod.mk.injEq]
        constructor
        · rintro ⟨⟨b, q⟩, hb, rfl, rfl⟩
          obtain ⟨hw, rfl⟩ := ih.1 hb
          simp [hp, hw]
        · rintro ⟨ha, hs⟩
          cases a with
          | nil => simp at ha
          | cons d a =>
            simp only [List.map_cons, List.cons.injEq] at ha
            simp only [List.cons_append, List.cons.injEq] at hs
            exact ⟨(a, r), ih.2 ⟨ha.2, hs.2⟩, by rw [hs.1], rfl⟩
      · simp only [readWord?, hp, if_false, reduceCtorEq, false_iff]
        rintro ⟨ha, hs⟩
        cases a with
        | nil => simp at ha
        | cons d a =>
          simp only [List.map_cons, List.cons.injEq] at ha
          simp only [List.cons_append, List.cons.injEq] at hs
          exact hp (hs.1 ▸ ha.1)

theorem readWord?_length {f : Char → Char} {w s a r : Text}
    (h : readWord? f w s = some (a, r)) : s.length = w.length + r.length := by
  obtain ⟨hw, rfl⟩ := readWord?_eq_some.1 h
  simp [← hw]

theorem nearest?_append {f : Char → Char} {w s b a r : Text}
    (h : nearest? f w s = some (b, a, r)) : s = b ++ a ++ r ∧ a.map f = w := by
  induction s generalizing b with
  | nil =>
    simp only [nearest?, Option.map_eq_some_iff, Prod.mk.injEq] at h
    obtain ⟨x, hx, rfl, rfl⟩ := h
    obtain ⟨hw, hs⟩ := readWord?_eq_some.1 hx
    exact ⟨by simpa using hs, hw⟩
  | cons c s ih =>
    simp only [nearest?] at h
    split at h
    · rename_i x hx
      simp only [Option.some.injEq, Prod.mk.injEq] at h
      obtain ⟨rfl, rfl⟩ := h
      obtain ⟨hw, hs⟩ := readWord?_eq_some.1 hx
      exact ⟨by simpa using hs, hw⟩
    · simp only [Option.map_eq_some_iff, Prod.mk.injEq] at h
      obtain ⟨⟨b', x⟩, hx, rfl, rfl⟩ := h
      obtain ⟨rfl, hw⟩ := ih hx
      exact ⟨by simp, hw⟩

theorem farthest?_append {f : Char → Char} {w s b a r : Text}
    (h : farthest? f w s = some (b, a, r)) : s = b ++ a ++ r ∧ a.map f = w := by
  induction s generalizing b with
  | nil =>
    simp only [farthest?, Option.map_eq_some_iff, Prod.mk.injEq] at h
    obtain ⟨x, hx, rfl, rfl⟩ := h
    obtain ⟨hw, hs⟩ := readWord?_eq_some.1 hx
    exact ⟨by simpa using hs, hw⟩
  | cons c s ih =>
    simp only [farthest?] at h
    split at h
    · rename_i x hx
      simp only [Option.some.injEq, Prod.mk.injEq] at h
      obtain ⟨rfl, h2⟩ := h
      obtain ⟨b', a', r'⟩ := x
      simp only [Prod.mk.injEq] at h2
      obtain ⟨rfl, rfl⟩ := h2
      obtain ⟨rfl, hw⟩ := ih hx
      exact ⟨by simp, hw⟩
    · simp only [Option.map_eq_some_iff, Prod.mk.injEq] at h
      obtain ⟨x, hx, rfl, rfl⟩ := h
      obtain ⟨hw, hs⟩ := readWord?_eq_some.1 hx
      exact ⟨by simpa using hs, hw⟩

end BBCode
