import BBCode.Text.Pattern

/-!
# BBCode.Proofs.Text.Skip

Texts that a reader passes over: at none of their characters does it read anything, whatever
comes after them. A pattern leaves such a text as it is, and a search for a word goes on behind
it.

* `Skips.append`: texts that are passed over stay so when they are put together.
* `SkipsBefore.pieces_append`, `SkipsBefore.substitute_append`, `nearest?_append_of_skipsBefore`:
  what reading makes of a text behind one that is passed over.
* `skips_of_avoids`: for a word this is decided by looking at the text alone.
* `skipsBefore_of_not_infix`: a word that a text does not hold is passed over where what follows
  cannot complete it.
-/

namespace BBCode

/-- What all characters of a text have in common is decided by going through the text, not through
all characters. -/
instance (priority := high) Text.decidableForallMem {p : Char → Prop} [DecidablePred p] (s : Text) :
    Decidable (∀ c ∈ s, p c) := List.decidableBAll p s

variable {α β : Type}

/-- The reader reads nothing at any character of the text, whatever follows the text. -/
def Skips (read? : Text → Option β) : Text → Prop
  | [] => True
  | c :: x => (∀ r, read? (c :: (x ++ r)) = none) ∧ Skips read? x

namespace Skips

variable {read? : Text → Option β} {x y : Text}

theorem append (hx : Skips read? x) (hy : Skips read? y) : Skips read? (x ++ y) := by
  induction x with
  | nil => exact hy
  | cons c x ih =>
    refine ⟨fun r => ?_, ih hx.2⟩
    show read? (c :: (x ++ y ++ r)) = none
    rw [List.append_assoc]
    exact hx.1 (y ++ r)

theorem imp {read' : Text → Option α} (h : ∀ s, read? s = none → read' s = none)
    (hx : Skips read? x) : Skips read' x := by
  induction x with
  | nil => exact trivial
  | cons c x ih => exact ⟨fun r => h _ (hx.1 r), ih hx.2⟩

theorem imp₂ {γ : Type} {read₂ : Text → Option γ} {read' : Text → Option α}
    (h : ∀ s, read? s = none → read₂ s = none → read' s = none) (hx : Skips read? x)
    (hy : Skips read₂ x) : Skips read' x := by
  induction x with
  | nil => exact trivial
  | cons c x ih => exact ⟨fun r => h _ (hx.1 r) (hy.1 r), ih hx.2 hy.2⟩

/-- A reader that never starts at a character of the text passes over the text. -/
theorem of_forall_mem (h : ∀ c ∈ x, ∀ s, read? (c :: s) = none) : Skips read? x := by
  induction x with
  | nil => exact trivial
  | cons c x ih =>
    exact ⟨fun r => h c (by simp) (x ++ r), ih fun d hd => h d (by simp [hd])⟩

end Skips

/-! ## Texts passed over in front of another -/

/-- The reader reads nothing at any character of the text where `r` follows it. -/
def SkipsBefore (read? : Text → Option β) (r : Text) : Text → Prop
  | [] => True
  | c :: x => read? (c :: (x ++ r)) = none ∧ SkipsBefore read? r x

theorem Skips.before {read? : Text → Option β} {x : Text} (h : Skips read? x) (r : Text) :
    SkipsBefore read? r x := by
  induction x with
  | nil => exact trivial
  | cons c x ih => exact ⟨h.1 r, ih h.2⟩

namespace SkipsBefore

variable {read? : Text → Option β} {x y r : Text}

theorem append (hx : SkipsBefore read? (y ++ r) x) (hy : SkipsBefore read? r y) :
    SkipsBefore read? r (x ++ y) := by
  induction x with
  | nil => exact hy
  | cons c x ih =>
    refine ⟨?_, ih hx.2⟩
    show read? (c :: (x ++ y ++ r)) = none
    rw [List.append_assoc]
    exact hx.1

theorem of_append (h : SkipsBefore read? r (x ++ y)) :
    SkipsBefore read? (y ++ r) x ∧ SkipsBefore read? r y := by
  induction x with
  | nil => exact ⟨trivial, h⟩
  | cons c x ih =>
    obtain ⟨hx, hy⟩ := ih h.2
    refine ⟨⟨?_, hx⟩, hy⟩
    rw [← List.append_assoc]
    exact h.1

theorem imp {read' : Text → Option α} (h : ∀ s, read? s = none → read' s = none)
    (hx : SkipsBefore read? r x) : SkipsBefore read' r x := by
  induction x with
  | nil => exact trivial
  | cons c x ih => exact ⟨h _ hx.1, ih hx.2⟩

theorem imp₂ {γ : Type} {read₂ : Text → Option γ} {read' : Text → Option α}
    (h : ∀ s, read? s = none → read₂ s = none → read' s = none) (hx : SkipsBefore read? r x)
    (hy : SkipsBefore read₂ r x) : SkipsBefore read' r x := by
  induction x with
  | nil => exact trivial
  | cons c x ih => exact ⟨h _ hx.1 hy.1, ih hx.2 hy.2⟩

/-- What is read behind the start of the text starts behind its end. -/
theorem suffix_of_read {u : Text} {b : β} (h : SkipsBefore read? r x) (hu : u <:+ x ++ r)
    (hread : read? u = some b) : u <:+ r := by
  induction x with
  | nil => exact hu
  | cons c x ih =>
    rcases List.suffix_cons_iff.1 hu with heq | hu
    · obtain rfl : u = c :: (x ++ r) := heq
      rw [h.1] at hread
      cases hread
    · exact ih h.2 hu

theorem pieces_append {p : Pattern Char α} (h : SkipsBefore p.read? r x) :
    p.pieces (x ++ r) = x.map Piece.plain ++ p.pieces r := by
  induction x with
  | nil => rfl
  | cons c x ih =>
    rw [List.cons_append, Pattern.pieces_of_not_read h.1, ih h.2]
    rfl

theorem substitute_append {p : Pattern Char α} {f : α → Text} (h : SkipsBefore p.read? r x) :
    p.substitute f (x ++ r) = x ++ p.substitute f r := by
  rw [Pattern.substitute, h.pieces_append, List.flatMap_append, List.flatMap_map]
  exact congrArg (· ++ _) (List.flatMap_singleton' x)

end SkipsBefore

/-! ## Substitution -/

namespace Pattern

variable {p : Pattern Char α} {x : Text}

theorem pieces_append (h : Skips p.read? x) (r : Text) :
    p.pieces (x ++ r) = x.map Piece.plain ++ p.pieces r := (h.before r).pieces_append

theorem substitute_append {f : α → Text} (h : Skips p.read? x) (r : Text) :
    p.substitute f (x ++ r) = x ++ p.substitute f r := (h.before r).substitute_append

theorem substitute_eq_self {f : α → Text} (h : Skips p.read? x) : p.substitute f x = x := by
  simpa using substitute_append (f := f) h []

/-- Writing each occurrence as it was read changes nothing. -/
theorem substitute_source {f : α → Text} (h : ∀ {s r a}, p.read? s = some (a, r) → s = f a ++ r)
    (s : Text) : p.substitute f s = s := by
  rw [substitute]
  fun_induction pieces p s with
  | case1 => rfl
  | case2 c s a r hr ih => rw [List.flatMap_cons, ih, h hr, Piece.fill]
  | case3 c s hn ih =>
    rw [List.flatMap_cons, ih]
    rfl

/-- Every occurrence among the pieces was read somewhere. -/
theorem read_of_mem_pieces {a : α} {s : Text} (h : .found a ∈ p.pieces s) :
    ∃ t r, p.read? t = some (a, r) := by
  fun_induction pieces p s with
  | case1 => simp at h
  | case2 c s b r hr ih =>
    rcases List.mem_cons.1 h with h | h
    · cases h
      exact ⟨c :: s, r, hr⟩
    · exact ih h
  | case3 c s hn ih =>
    rcases List.mem_cons.1 h with h | h
    · cases h
    · exact ih h

theorem substitute_congr {f g : α → Text} (h : ∀ {s r a}, p.read? s = some (a, r) → f a = g a)
    (s : Text) : p.substitute f s = p.substitute g s := by
  rw [substitute, substitute, List.flatMap_def, List.flatMap_def]
  refine congrArg List.flatten (List.map_congr_left fun q hq => ?_)
  cases q with
  | plain c => rfl
  | found a =>
    obtain ⟨t, r, hr⟩ := read_of_mem_pieces hq
    exact h hr

end Pattern

theorem Piece.fillFrom_plain (f : Nat → α → Text) (n : Nat) (x : Text)
    (ps : List (Piece Char α)) :
    Piece.fillFrom f n (x.map Piece.plain ++ ps) =
      (x ++ (Piece.fillFrom f n ps).1, (Piece.fillFrom f n ps).2) := by
  induction x with
  | nil => rfl
  | cons c x ih => simp [Piece.fillFrom, ih]

theorem Piece.fillFrom_const (f : α → Text) (n : Nat) (ps : List (Piece Char α)) :
    (Piece.fillFrom (fun _ => f) n ps).1 = ps.flatMap (Piece.fill f) := by
  induction ps generalizing n with
  | nil => rfl
  | cons p ps ih =>
    cases p with
    | plain c => exact congrArg (c :: ·) (ih n)
    | found a => exact congrArg (f a ++ ·) (ih (n + 1))

/-! ## Letter case -/

/-- Only letters are folded. -/
theorem foldCase_eq {c p : Char} (hp : p.isLower = false) (h : foldCase c = p) : c = p := by
  unfold foldCase at h
  split at h
  · rw [← h] at hp
    exact absurd hp (by decide)
  · split at h
    · rw [← h] at hp
      exact absurd hp (by decide)
    · unfold Char.toLower at h
      split at h
      · rename_i hc
        rw [← h] at hp
        obtain ⟨h1, h2⟩ := hc
        have h1 : 65 ≤ c.val.toNat := UInt32.le_iff_toNat_le.1 h1
        have h2 : c.val.toNat ≤ 90 := UInt32.le_iff_toNat_le.1 h2
        have hval : ('a'.val - 'A'.val).toNat = 32 := by decide
        have hadd : (c.val + ('a'.val - 'A'.val)).toNat = c.val.toNat + 32 := by
          rw [UInt32.toNat_add, hval]
          omega
        delta Char.isLower at hp
        simp only [Bool.and_eq_false_iff, decide_eq_false_iff_not, ge_iff_le,
          UInt32.le_iff_toNat_le, hadd] at hp
        have ha : 'a'.val.toNat = 97 := by decide
        have hz : 'z'.val.toNat = 122 := by decide
        omega
      · exact h

theorem foldCase_bracket {c : Char} (h : c ≠ '[') : foldCase c ≠ '[' :=
  fun hc => h (foldCase_eq (by decide) hc)

theorem foldCase_lt {c : Char} (h : c ≠ '<') : foldCase c ≠ '<' :=
  fun hc => h (foldCase_eq (by decide) hc)

/-- A character that is no letter has one spelling only. -/
theorem map_foldCase_eq_cons {c : Char} (hc : c.isLower = false) {a w : Text}
    (h : a.map foldCase = c :: w) : ∃ u, a = c :: u ∧ u.map foldCase = w := by
  obtain ⟨d, u, rfl, hd, hu⟩ := List.map_eq_cons_iff.1 h
  exact ⟨u, by rw [foldCase_eq hc hd], hu⟩

/-! ## Words -/

variable {f : Char → Char}

theorem readWord?_self_append {w : Text} (h : w.map f = w) (r : Text) :
    readWord? f w (w ++ r) = some (w, r) :=
  readWord?_eq_some.2 ⟨h, rfl⟩

theorem readWord?_cons_of_ne {p c : Char} {w s : Text} (h : f c ≠ p) :
    readWord? f (p :: w) (c :: s) = none := by
  rw [readWord?, if_neg h]

/-- A word without letters is read in the same way if case matters. -/
theorem readWord?_foldCase {w : Text} (h : ∀ p ∈ w, p.isLower = false ∧ foldCase p = p)
    (s : Text) : readWord? foldCase w s = readWord? id w s := by
  induction w generalizing s with
  | nil => rfl
  | cons p w ih =>
    obtain ⟨⟨hlower, hself⟩, hw⟩ := List.forall_mem_cons.1 h
    cases s with
    | nil => rfl
    | cons c s =>
      have hc : foldCase c = p ↔ id c = p := by
        constructor
        · exact foldCase_eq hlower
        · rintro rfl
          exact hself
      simp only [readWord?, ih hw, hc]

/-- A search goes on behind a text that is passed over. -/
theorem nearest?_append_of_skipsBefore {w x r : Text} (h : SkipsBefore (readWord? f w) r x) :
    nearest? f w (x ++ r) = (nearest? f w r).map fun q => (x ++ q.1, q.2) := by
  induction x with
  | nil => simp
  | cons c x ih =>
    rw [List.cons_append, nearest?, h.1, ih h.2]
    cases nearest? f w r <;> simp

theorem nearest?_append_of_skips {w x : Text} (h : Skips (readWord? f w) x) (r : Text) :
    nearest? f w (x ++ r) = (nearest? f w r).map fun q => (x ++ q.1, q.2) :=
  nearest?_append_of_skipsBefore (h.before r)

theorem nearest?_of_read {w s a r : Text} (h : readWord? f w s = some (a, r)) :
    nearest? f w s = some ([], a, r) := by
  cases s with
  | nil => simp [nearest?, h]
  | cons c s => simp [nearest?, h]

/-- A word that is passed over in a text in front of it is the nearest one. -/
theorem nearest?_of_skipsBefore {w x a r : Text} (h : SkipsBefore (readWord? f w) (a ++ r) x)
    (ha : a.map f = w) : nearest? f w (x ++ (a ++ r)) = some (x, a, r) := by
  rw [nearest?_append_of_skipsBefore h, nearest?_of_read (readWord?_eq_some.2 ⟨ha, rfl⟩)]
  simp

theorem nearest?_append_word {w x a r : Text} (h : Skips (readWord? f w) x)
    (ha : a.map f = w) : nearest? f w (x ++ (a ++ r)) = some (x, a, r) :=
  nearest?_of_skipsBefore (h.before (a ++ r)) ha

/-- A word that a text does not hold is passed over in it, if what follows the text starts with no
later character of the word. -/
theorem skipsBefore_of_not_infix {w x r : Text} (hw : ¬ w <:+: x.map f)
    (hr : ∀ c ∈ r.head?, f c ∉ w.tail) : SkipsBefore (readWord? f w) r x := by
  induction x with
  | nil => exact trivial
  | cons c x ih =>
    refine ⟨?_, ih fun hi => hw (hi.trans (List.suffix_cons (f c) (x.map f)).isInfix)⟩
    rw [Option.eq_none_iff_forall_ne_some]
    rintro ⟨a, q⟩ ha
    obtain ⟨rfl, hs⟩ := readWord?_eq_some.1 ha
    rw [← List.cons_append] at hs
    rcases List.append_eq_append_iff.1 hs with ⟨y, rfl, hy⟩ | ⟨y, hy, -⟩
    · cases y with
      | nil =>
        rw [List.append_nil] at hw
        exact hw (List.infix_refl _)
      | cons d y => exact hr d (by rw [hy]; rfl) (by simp)
    · rw [hy, List.map_append] at hw
      exact hw (List.prefix_append _ _).isInfix

theorem nearest?_eq_none_of_skips {p : Char} {w x : Text} (h : Skips (readWord? f (p :: w)) x) :
    nearest? f (p :: w) x = none := by
  have hx := nearest?_append_of_skips h []
  simpa [nearest?, readWord?] using hx

/-- The word differs from the text at a place that both have. -/
def clashes (f : Char → Char) : Text → Text → Bool
  | p :: w, c :: x => if f c = p then clashes f w x else true
  | _, _ => false

/-- The word differs so from every suffix of the text. -/
def avoids (f : Char → Char) (w : Text) : Text → Bool
  | [] => true
  | c :: x => clashes f w (c :: x) && avoids f w x

theorem readWord?_of_clashes {w x : Text} (h : clashes f w x = true) (r : Text) :
    readWord? f w (x ++ r) = none := by
  induction w generalizing x with
  | nil => simp [clashes] at h
  | cons p w ih =>
    cases x with
    | nil => simp [clashes] at h
    | cons c x =>
      rw [clashes] at h
      by_cases hc : f c = p
      · rw [if_pos hc] at h
        rw [List.cons_append, readWord?, if_pos hc, ih h]
        rfl
      · exact readWord?_cons_of_ne hc

theorem skips_of_avoids {w x : Text} (h : avoids f w x = true) : Skips (readWord? f w) x := by
  induction x with
  | nil => exact trivial
  | cons c x ih =>
    rw [avoids, Bool.and_eq_true] at h
    exact ⟨readWord?_of_clashes h.1, ih h.2⟩

theorem skips_of_head_ne {p : Char} {w x : Text} (h : ∀ c ∈ x, f c ≠ p) :
    Skips (readWord? f (p :: w)) x :=
  .of_forall_mem fun c hc _ => readWord?_cons_of_ne (h c hc)

/-! ## Reading in front of a text -/

/-- Neither the word nor an end of it is read at the text, so that a reading that starts in front
of the text does not run into it. -/
def Stops (f : Char → Char) (y : Text) : Text → Prop
  | [] => True
  | p :: w => (∀ r, readWord? f (p :: w) (y ++ r) = none) ∧ Stops f y w

/-- The word and every end of it differ from the text at a place that both have. -/
def clashesAll (f : Char → Char) (y : Text) : Text → Bool
  | [] => true
  | p :: w => clashes f (p :: w) y && clashesAll f y w

theorem stops_of_clashesAll {w y : Text} (h : clashesAll f y w = true) : Stops f y w := by
  induction w with
  | nil => exact trivial
  | cons p w ih =>
    rw [clashesAll, Bool.and_eq_true] at h
    exact ⟨readWord?_of_clashes h.1, ih h.2⟩

theorem stops_of_not_mem {c : Char} {w : Text} (h : f c ∉ w) (y : Text) : Stops f (c :: y) w := by
  induction w with
  | nil => exact trivial
  | cons p w ih =>
    rw [List.mem_cons, not_or] at h
    exact ⟨fun r => readWord?_cons_of_ne h.1, ih h.2⟩

theorem Stops.append {w y : Text} (h : Stops f y w) (z : Text) : Stops f (y ++ z) w := by
  induction w with
  | nil => exact trivial
  | cons p w ih =>
    refine ⟨fun r => ?_, ih h.2⟩
    rw [List.append_assoc]
    exact h.1 (z ++ r)

theorem readWord?_append_of_stops {w y : Text} (h : Stops f y w) (x r : Text) :
    readWord? f w (x ++ (y ++ r)) =
      (readWord? f w x).map fun q => (q.1, q.2 ++ (y ++ r)) := by
  induction w generalizing x with
  | nil => simp [readWord?]
  | cons p w ih =>
    cases x with
    | nil => simpa [readWord?] using h.1 r
    | cons c x =>
      rw [List.cons_append, readWord?, readWord?, ih h.2]
      by_cases hc : f c = p
      · simp [hc, Function.comp_def]
      · simp [hc]

/-- A word that is no longer than a text is read in it or not at all. -/
theorem readWord?_append_of_le {w x : Text} (h : w.length ≤ x.length) (r : Text) :
    readWord? f w (x ++ r) = (readWord? f w x).map fun q => (q.1, q.2 ++ r) := by
  induction w generalizing x with
  | nil => simp [readWord?]
  | cons p w ih =>
    cases x with
    | nil => simp at h
    | cons c x =>
      rw [List.cons_append, readWord?, readWord?, ih (by simpa using h)]
      by_cases hc : f c = p
      · simp [hc, Function.comp_def]
      · simp [hc]

/-- Where the nearest word is does not depend on what follows it. -/
theorem nearest?_append_congr {w b a r : Text} (h : nearest? f w (b ++ (a ++ r)) = some (b, a, r))
    (r' : Text) : nearest? f w (b ++ (a ++ r')) = some (b, a, r') := by
  have hw : a.map f = w := (nearest?_append h).2
  induction b with
  | nil => exact nearest?_of_read (readWord?_eq_some.2 ⟨hw, rfl⟩)
  | cons c b ih =>
    have hle : w.length ≤ (c :: (b ++ a)).length := by
      rw [← hw]
      simp only [List.length_map, List.length_cons, List.length_append]
      omega
    have happ : ∀ z, readWord? f w (c :: (b ++ (a ++ z))) =
        (readWord? f w (c :: (b ++ a))).map fun q => (q.1, q.2 ++ z) := by
      intro z
      rw [← readWord?_append_of_le hle, List.cons_append, List.append_assoc]
    rw [List.cons_append, nearest?] at h ⊢
    rw [happ] at h ⊢
    cases hr : readWord? f w (c :: (b ++ a)) with
    | some q =>
      rw [hr] at h
      simp at h
    | none =>
      rw [hr] at h
      simp only [Option.map_none, Option.map_eq_some_iff, Prod.mk.injEq, List.cons.injEq,
        true_and] at h ⊢
      obtain ⟨⟨b', a', q⟩, hx, rfl, hq⟩ := h
      cases hq
      exact ⟨(b', a, r'), ih hx, rfl, rfl⟩

/-- Behind a text that does not hold the word, the word is the nearest one, if none starts in the
text and ends behind it. -/
theorem nearest?_append_of_none {p : Char} {w x a : Text} (hx : nearest? f (p :: w) x = none)
    (hs : Stops f a w) (ha : a.map f = p :: w) (r : Text) :
    nearest? f (p :: w) (x ++ (a ++ r)) = some (x, a, r) := by
  induction x with
  | nil => exact nearest?_of_read (readWord?_eq_some.2 ⟨ha, rfl⟩)
  | cons c x ih =>
    rw [nearest?] at hx
    cases hr : readWord? f (p :: w) (c :: x) with
    | some q =>
      rw [hr] at hx
      simp at hx
    | none =>
      simp only [hr, Option.map_eq_none_iff] at hx
      have hr' : readWord? f (p :: w) (c :: (x ++ (a ++ r))) = none := by
        rw [readWord?] at hr ⊢
        by_cases hc : f c = p
        · rw [if_pos hc] at hr ⊢
          rw [readWord?_append_of_stops hs, Option.map_map]
          simpa using hr
        · rw [if_neg hc]
      rw [List.cons_append, nearest?, hr', ih hx]
      rfl

theorem nearest?_append_ne_none {w x y : Text} (hy : nearest? f w y ≠ none) :
    nearest? f w (x ++ y) ≠ none := by
  induction x with
  | nil => exact hy
  | cons c x ih =>
    rw [List.cons_append, nearest?]
    split
    · simp
    · simpa using ih

/-! ## Marks -/

/-- A text that holds no mark ends in front of the first one. -/
theorem exists_of_append_eq_cons {c : Char} {x y s t : Text} (hx : c ∉ x)
    (h : x ++ s = y ++ c :: t) : ∃ z, y = x ++ z ∧ s = z ++ c :: t := by
  rcases List.append_eq_append_iff.1 h with ⟨z, hz, hs⟩ | ⟨z, rfl, hz⟩
  · exact ⟨z, hz, hs⟩
  · cases z with
    | nil => exact ⟨[], (List.append_nil _).symm.trans (List.append_nil _).symm, hz.symm⟩
    | cons d z =>
      rw [List.cons_append, List.cons.injEq] at hz
      exact absurd (by simp [hz.1]) hx

/-- Two texts that are the same up to the first mark are the same behind it. -/
theorem append_cons_inj {c : Char} {x y s t : Text} (hx : c ∉ x) (hy : c ∉ y)
    (h : x ++ c :: s = y ++ c :: t) : x = y ∧ s = t := by
  obtain ⟨z, rfl, hz⟩ := exists_of_append_eq_cons hx h
  cases z with
  | nil => exact ⟨(List.append_nil x).symm, List.tail_eq_of_cons_eq hz⟩
  | cons d z =>
    rw [List.cons_append, List.cons.injEq] at hz
    exact absurd (by simp [hz.1]) hy

/-- The nearest mark has none in front of it. -/
theorem not_mem_of_nearest? {p : Char} {s b a r : Text} (h : nearest? id [p] s = some (b, a, r)) :
    p ∉ b := by
  induction s generalizing b with
  | nil => simp [nearest?, readWord?] at h
  | cons c s ih =>
    rw [nearest?] at h
    split at h
    · cases h
      simp
    · rename_i hc
      simp only [Option.map_eq_some_iff, Prod.mk.injEq] at h
      obtain ⟨⟨b', x⟩, hx, rfl, rfl⟩ := h
      have hne : c ≠ p := by
        rintro rfl
        simp [readWord?] at hc
      simp [hne.symm, ih hx]

end BBCode
