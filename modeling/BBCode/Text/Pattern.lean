import BBCode.Text

/-!
# BBCode.Text.Pattern

Reading a sequence from left to right for the occurrences of one construct. A `Pattern` reads
the construct at the front of a sequence; `Pattern.pieces` cuts the sequence at the leftmost
occurrences that do not overlap.

Main statements: `pieces_of_read` and `pieces_of_not_read` give the two steps of the cut,
`pieces_eq_found_cons` and `pieces_eq_plain_cons` which of them the first piece comes from, and
`substitute_of_read`, `substitute_of_not_read` the two steps of replacing each occurrence.
-/

namespace BBCode

/-- A reader of one construct: what it finds at the front of a sequence, and what follows. Each
success consumes something. -/
structure Pattern (σ α : Type) where
  read? : List σ → Option (α × List σ)
  shorter : ∀ {s a r}, read? s = some (a, r) → r.length < s.length

/-- A stretch of a sequence that was cut at the occurrences of a pattern. -/
inductive Piece (σ α : Type) where
  | plain (c : σ)
  | found (a : α)

namespace Pattern

variable {σ α β : Type}

/-- The occurrences of a pattern and the symbols between them. -/
def pieces (p : Pattern σ α) : List σ → List (Piece σ α)
  | [] => []
  | c :: s =>
    match _h : p.read? (c :: s) with
    | some (a, r) => .found a :: p.pieces r
    | none => .plain c :: p.pieces s
termination_by s => s.length
decreasing_by
  · exact p.shorter _h
  · exact Nat.lt_succ_self _

@[simp] theorem pieces_nil (p : Pattern σ α) : p.pieces [] = [] := by
  simp [pieces]

theorem pieces_of_read {p : Pattern σ α} {s r : List σ} {a : α}
    (h : p.read? s = some (a, r)) : p.pieces s = .found a :: p.pieces r := by
  cases s with
  | nil => have := p.shorter h; simp at this
  | cons c s =>
    rw [pieces]
    split
    · rename_i b q hq
      rw [h] at hq
      cases hq
      rfl
    · rename_i hn
      rw [h] at hn
      cases hn

theorem pieces_of_not_read {p : Pattern σ α} {c : σ} {s : List σ}
    (h : p.read? (c :: s) = none) : p.pieces (c :: s) = .plain c :: p.pieces s := by
  rw [pieces]
  split
  · rename_i b q hq
    rw [h] at hq
    cases hq
  · rfl

/-- Pieces start with an occurrence where one is read. -/
theorem pieces_eq_found_cons {p : Pattern σ α} {s : List σ} {a : α} {ps : List (Piece σ α)} :
    p.pieces s = .found a :: ps ↔ ∃ r, p.read? s = some (a, r) ∧ p.pieces r = ps := by
  constructor
  · intro h
    cases s with
    | nil =>
      rw [pieces_nil] at h
      cases h
    | cons c s =>
      cases hr : p.read? (c :: s) with
      | none =>
        rw [pieces_of_not_read hr] at h
        cases h
      | some x =>
        rw [pieces_of_read (a := x.1) (r := x.2) hr, List.cons.injEq, Piece.found.injEq] at h
        obtain ⟨rfl, rfl⟩ := h
        exact ⟨x.2, rfl, rfl⟩
  · rintro ⟨r, hr, rfl⟩
    exact pieces_of_read hr

/-- Pieces start with a symbol where nothing is read. -/
theorem pieces_eq_plain_cons {p : Pattern σ α} {s : List σ} {c : σ} {ps : List (Piece σ α)} :
    p.pieces s = .plain c :: ps ↔ ∃ r, s = c :: r ∧ p.read? s = none ∧ p.pieces r = ps := by
  constructor
  · intro h
    cases s with
    | nil =>
      rw [pieces_nil] at h
      cases h
    | cons d s =>
      cases hr : p.read? (d :: s) with
      | none =>
        rw [pieces_of_not_read hr, List.cons.injEq, Piece.plain.injEq] at h
        obtain ⟨rfl, rfl⟩ := h
        exact ⟨s, rfl, rfl, rfl⟩
      | some x =>
        rw [pieces_of_read (a := x.1) (r := x.2) hr] at h
        cases h
  · rintro ⟨r, rfl, hr, rfl⟩
    exact pieces_of_not_read hr

end Pattern

namespace Piece

variable {α : Type}

/-- The text of a piece, an occurrence being written by `f`. -/
def fill (f : α → Text) : Piece Char α → Text
  | plain c => [c]
  | found a => f a

/-- The text of pieces whose occurrences are numbered from `n` on, and the next free number. -/
def fillFrom (f : Nat → α → Text) : Nat → List (Piece Char α) → Text × Nat
  | n, [] => ([], n)
  | n, plain c :: ps => let x := fillFrom f n ps; (c :: x.1, x.2)
  | n, found a :: ps => let x := fillFrom f (n + 1) ps; (f n a ++ x.1, x.2)

end Piece

namespace Pattern

variable {α : Type}

/-- Replaces each occurrence. -/
def substitute (p : Pattern Char α) (f : α → Text) (s : Text) : Text :=
  (p.pieces s).flatMap (Piece.fill f)

@[simp] theorem substitute_nil (p : Pattern Char α) (f : α → Text) :
    p.substitute f [] = [] := by
  simp [substitute]

theorem substitute_of_read {p : Pattern Char α} {f : α → Text} {s r : Text} {a : α}
    (h : p.read? s = some (a, r)) : p.substitute f s = f a ++ p.substitute f r := by
  simp [substitute, pieces_of_read h, Piece.fill]

theorem substitute_of_not_read {p : Pattern Char α} {f : α → Text} {c : Char} {s : Text}
    (h : p.read? (c :: s) = none) : p.substitute f (c :: s) = c :: p.substitute f s := by
  simp [substitute, pieces_of_not_read h, Piece.fill]

/-- The same occurrences, each seen through `g`. -/
def map {σ α β : Type} (p : Pattern σ α) (g : α → β) : Pattern σ β where
  read? s := (p.read? s).map fun x => (g x.1, x.2)
  shorter h := by
    simp only [Option.map_eq_some_iff, Prod.mk.injEq] at h
    obtain ⟨x, hx, _, rfl⟩ := h
    exact p.shorter hx

/-- A fixed word; an occurrence is found as it is spelled. -/
def word (f : Char → Char) (w : Text) (hw : w ≠ []) : Pattern Char Text where
  read? := readWord? f w
  shorter h := by
    have := readWord?_length h
    have := List.length_pos_iff.2 hw
    omega

end Pattern

end BBCode
