import BBCode.Proofs.Text.Occurs

/-!
# BBCode.Proofs.Text.Seam

How often a word occurs in a text that is put together. An occurrence can lie across a seam, so
parts have at most as many as the whole. Markup that the word can neither start in nor run into
separates what stands around it, and then the counts add up.

* `add_occurrences_le`: the occurrences of two parts are occurrences of the whole.
* `occurrences_seam`: around markup that is clear of the word there are no others.
* `occurrences_eq_zero`: a word has no occurrence if it is not a part of the text.
-/

namespace BBCode

variable {f : Char → Char} {w x y z : Text}

/-- How often a word occurs in a text. -/
def occurrences (f : Char → Char) (w : Text) : Text → Nat
  | [] => 0
  | c :: s => (if (readWord? f w (c :: s)).isSome then 1 else 0) + occurrences f w s

@[simp] theorem occurrences_nil : occurrences f w [] = 0 := rfl

theorem occurrences_cons_of_none {c : Char} {s : Text} (h : readWord? f w (c :: s) = none) :
    occurrences f w (c :: s) = occurrences f w s := by
  simp [occurrences, h]

theorem isSome_readWord? : (readWord? f w x).isSome = true ↔ w <+: x.map f := by
  rw [Option.isSome_iff_exists]
  constructor
  · rintro ⟨⟨a, r⟩, h⟩
    obtain ⟨rfl, rfl⟩ := readWord?_eq_some.1 h
    exact ⟨r.map f, List.map_append.symm⟩
  · rintro ⟨t, ht⟩
    obtain ⟨a, r, rfl, ha, -⟩ := List.map_eq_append_iff.1 ht.symm
    exact ⟨(a, r), readWord?_eq_some.2 ⟨ha, rfl⟩⟩

/-- No occurrence is lost where texts are put together. -/
theorem add_occurrences_le (x y : Text) :
    occurrences f w x + occurrences f w y ≤ occurrences f w (x ++ y) := by
  induction x with
  | nil => simp
  | cons c x ih =>
    rw [List.cons_append, occurrences, occurrences]
    split
    · rename_i h
      have hxy : (readWord? f w (c :: (x ++ y))).isSome = true :=
        isSome_readWord?.2 ((isSome_readWord?.1 h).trans ((List.prefix_append (c :: x) y).map f))
      rw [if_pos hxy]
      omega
    · omega

theorem occurrences_eq_zero (hw : w ≠ []) :
    occurrences f w x = 0 ↔ ¬ w <:+: x.map f := by
  induction x with
  | nil => simpa using hw
  | cons c x ih =>
    rw [occurrences, Nat.add_eq_zero_iff, ih, List.map_cons, List.infix_cons_iff, not_or,
      ← List.map_cons, ← isSome_readWord?]
    simp

/-- The word starts at no character of the text, and none that starts in front of the text runs
into it. -/
structure Clear (f : Char → Char) (w c : Text) : Prop where
  skips : Skips (readWord? f w) c
  stops : Stops f c w.tail

theorem Clear.of_clashes {c : Text} (h : (avoids f w c && clashesAll f c w.tail) = true) :
    Clear f w c := by
  rw [Bool.and_eq_true] at h
  exact ⟨skips_of_avoids h.1, stops_of_clashesAll h.2⟩

theorem readWord?_cons_append_of_stops (h : Stops f y w.tail) (c : Char) (x z : Text) :
    readWord? f w (c :: (x ++ (y ++ z))) =
      (readWord? f w (c :: x)).map fun q => (q.1, q.2 ++ (y ++ z)) := by
  cases w with
  | nil => rfl
  | cons p w =>
    have htail : Stops f y w := h
    rw [readWord?, readWord?, readWord?_append_of_stops htail]
    split
    · cases readWord? f w x <;> rfl
    · rfl

theorem occurrences_append_of_skips (h : Skips (readWord? f w) x) (y : Text) :
    occurrences f w (x ++ y) = occurrences f w y := by
  induction x with
  | nil => rfl
  | cons c x ih => rw [List.cons_append, occurrences_cons_of_none (h.1 y), ih h.2]

theorem occurrences_append_of_stops (h : Stops f y w.tail) (x z : Text) :
    occurrences f w (x ++ (y ++ z)) = occurrences f w x + occurrences f w (y ++ z) := by
  induction x with
  | nil => simp
  | cons c x ih =>
    rw [List.cons_append, occurrences, occurrences, readWord?_cons_append_of_stops h,
      Option.isSome_map, ih]
    omega

theorem occurrences_append_of_head (h : ∀ c ∈ y.head?, f c ∉ w.tail) (x : Text) :
    occurrences f w (x ++ y) = occurrences f w x + occurrences f w y := by
  cases y with
  | nil => simp
  | cons c y =>
    have hstop : Stops f [c] w.tail := stops_of_not_mem (h c rfl) []
    exact occurrences_append_of_stops hstop x y

/-- Around markup that is clear of a word the occurrences add up. -/
theorem occurrences_seam {c : Text} (h : Clear f w c) (x y : Text) :
    occurrences f w (x ++ (c ++ y)) = occurrences f w x + occurrences f w y := by
  rw [occurrences_append_of_stops h.stops, occurrences_append_of_skips h.skips]

/-- A word that cannot start inside itself counts once in front of any text. -/
theorem occurrences_word_append {p : Char} (hw : (p :: w).map f = p :: w)
    (h : Skips (readWord? f (p :: w)) w) (y : Text) :
    occurrences f (p :: w) (p :: (w ++ y)) = occurrences f (p :: w) y + 1 := by
  have hread : readWord? f (p :: w) (p :: (w ++ y)) = some (p :: w, y) := readWord?_self_append hw y
  rw [occurrences, hread, occurrences_append_of_skips h, Option.isSome_some, if_pos rfl,
    Nat.add_comm]

end BBCode
