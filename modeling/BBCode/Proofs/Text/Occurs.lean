import BBCode.Proofs.Text.Skip
import BBCode.Rule

/-!
# BBCode.Proofs.Text.Occurs

Words that do not occur in a text, up to what their characters are compared as. Where the closing
tag of a pair does not occur, the pair is found nowhere, whatever opens.

* `nearest?_of_not_isInfix`: a word that does not occur is not found.
* `not_infix_of_nearest?`, `not_infix_of_farthest?`: no word in front of the nearest place, none
  behind the last.
* `Rule.apply_of_misses`: a rule that finds nothing changes nothing.
* `TagPair.misses_of_not_isInfix`: without a closing tag no pair is found.
-/

namespace BBCode

variable {f : Char → Char} {w s : Text}

theorem infix_map_of_readWord? {a r : Text} (h : readWord? f w s = some (a, r)) :
    w <:+: s.map f := by
  obtain ⟨rfl, rfl⟩ := readWord?_eq_some.1 h
  exact (List.prefix_append a r).isInfix.map f

theorem readWord?_of_not_isInfix (h : ¬ w <:+: s.map f) : readWord? f w s = none := by
  rw [Option.eq_none_iff_forall_ne_some]
  rintro ⟨a, r⟩ ha
  exact h (infix_map_of_readWord? ha)

theorem nearest?_of_not_isInfix (h : ¬ w <:+: s.map f) : nearest? f w s = none := by
  rw [Option.eq_none_iff_forall_ne_some]
  rintro ⟨b, a, r⟩ ha
  obtain ⟨rfl, rfl⟩ := nearest?_append ha
  exact h ((List.infix_append b a r).map f)

theorem farthest?_of_not_isInfix (h : ¬ w <:+: s.map f) : farthest? f w s = none := by
  rw [Option.eq_none_iff_forall_ne_some]
  rintro ⟨b, a, r⟩ ha
  obtain ⟨rfl, rfl⟩ := farthest?_append ha
  exact h ((List.infix_append b a r).map f)

/-- A word that is spelled somewhere in a text occurs there. -/
theorem infix_map_iff : w <:+: s.map f ↔ ∃ a o b, s = a ++ (o ++ b) ∧ o.map f = w := by
  constructor
  · rintro ⟨x, y, h⟩
    obtain ⟨a, t, rfl, rfl, ht⟩ := List.map_eq_append_iff.1 (h.symm.trans (List.append_assoc x w y))
    obtain ⟨o, b, rfl, ho, -⟩ := List.map_eq_append_iff.1 ht
    exact ⟨a, o, b, rfl, ho⟩
  · rintro ⟨a, o, b, rfl, rfl⟩
    exact ⟨a.map f, b.map f, by simp⟩

theorem nearest?_ne_none_of_isInfix (h : w <:+: s.map f) : nearest? f w s ≠ none := by
  obtain ⟨a, o, b, rfl, ho⟩ := infix_map_iff.1 h
  refine nearest?_append_ne_none ?_
  rw [nearest?_of_read (readWord?_eq_some.2 ⟨ho, rfl⟩)]
  simp

theorem farthest?_append_ne_none {x y : Text} (hy : farthest? f w y ≠ none) :
    farthest? f w (x ++ y) ≠ none := by
  induction x with
  | nil => exact hy
  | cons c x ih =>
    rw [List.cons_append, farthest?]
    split
    · simp
    · rename_i hn
      exact absurd hn ih

theorem farthest?_ne_none_of_isInfix (h : w <:+: s.map f) : farthest? f w s ≠ none := by
  obtain ⟨a, o, b, rfl, ho⟩ := infix_map_iff.1 h
  have hread : readWord? f w (o ++ b) = some (o, b) := readWord?_eq_some.2 ⟨ho, rfl⟩
  refine farthest?_append_ne_none ?_
  cases hob : o ++ b with
  | nil =>
    rw [hob] at hread
    simp [farthest?, hread]
  | cons c t =>
    rw [hob] at hread
    rw [farthest?, hread]
    split <;> simp

/-- Nothing in front of the nearest place is the word. -/
theorem not_infix_of_nearest? {b a r : Text} (hw : w ≠ []) (h : nearest? f w s = some (b, a, r)) :
    ¬ w <:+: b.map f := by
  induction s generalizing b with
  | nil =>
    cases w with
    | nil => exact absurd rfl hw
    | cons p w => cases h
  | cons c s ih =>
    rw [nearest?] at h
    split at h
    · cases h
      simpa using hw
    · rename_i hc
      simp only [Option.map_eq_some_iff, Prod.mk.injEq] at h
      obtain ⟨⟨b', x⟩, hx, rfl, rfl⟩ := h
      rw [List.map_cons, List.infix_cons_iff]
      rintro (⟨q, hq⟩ | hi)
      · -- the word would be read in front of the text
        obtain ⟨o, t, ho, hmap, -⟩ := List.map_eq_append_iff.1
          ((List.map_cons (f := f) (a := c) (l := b')).trans hq.symm)
        obtain ⟨rfl, -⟩ := nearest?_append hx
        rw [List.append_assoc, ← List.cons_append, ho, List.append_assoc,
          readWord?_eq_some.2 ⟨hmap, rfl⟩] at hc
        cases hc
      · exact ih hx hi

/-- Nothing behind the last place is the word. -/
theorem not_infix_of_farthest? {b a r : Text} (hw : w ≠ [])
    (h : farthest? f w s = some (b, a, r)) : ¬ w <:+: r.map f := by
  induction s generalizing b with
  | nil =>
    cases w with
    | nil => exact absurd rfl hw
    | cons p w => cases h
  | cons c s ih =>
    rw [farthest?] at h
    split at h
    · rename_i x hx
      simp only [Option.some.injEq, Prod.mk.injEq] at h
      obtain ⟨-, hx2⟩ := h
      exact ih (b := x.1) (by rw [hx, ← hx2])
    · rename_i hn
      simp only [Option.map_eq_some_iff, Prod.mk.injEq] at h
      obtain ⟨x, hx, rfl, rfl, rfl⟩ := h
      obtain ⟨ha, hs⟩ := readWord?_eq_some.1 hx
      have hr : r <:+ s := by
        cases a with
        | nil => exact absurd ha.symm hw
        | cons d a =>
          rw [List.cons_append, List.cons.injEq] at hs
          exact ⟨a, hs.2.symm⟩
      exact fun hi => farthest?_ne_none_of_isInfix (hi.trans (hr.isInfix.map f)) hn

namespace Pattern

variable {α : Type}

/-- The pattern is found nowhere in the text. -/
def Misses (p : Pattern Char α) (s : Text) : Prop := ∀ t, t <:+ s → p.read? t = none

variable {p : Pattern Char α}

theorem Misses.pieces (h : p.Misses s) : p.pieces s = s.map .plain := by
  induction s with
  | nil => exact pieces_nil p
  | cons c s ih =>
    rw [pieces_of_not_read (h (c :: s) List.suffix_rfl),
      ih fun t ht => h t (ht.trans (List.suffix_cons c s)), List.map_cons]

theorem Misses.substitute (h : p.Misses s) (g : α → Text) : p.substitute g s = s := by
  rw [Pattern.substitute, h.pieces, List.flatMap_map]
  exact List.flatMap_singleton' s

end Pattern

theorem Rule.apply_of_misses {o : Options} {r : Rule} {x : Text × Tally}
    (h : r.pattern.Misses x.1) : r.apply o x = x := by
  obtain ⟨name, p, action⟩ := r
  have hp : p.pieces x.1 = x.1.map .plain := h.pieces
  cases action with
  | replace f => rw [apply_replace, Pattern.Misses.substitute h]
  | numbered f =>
    have hfill := Piece.fillFrom_plain (f o) x.2.cards x.1 []
    rw [List.append_nil] at hfill
    simp only [Rule.apply, hp, hfill, Piece.fillFrom, List.append_nil]

theorem Rule.applyAll_of_misses {o : Options} {rs : List Rule} {x : Text × Tally}
    (h : ∀ r ∈ rs, r.pattern.Misses x.1) : Rule.applyAll o rs x = x := by
  induction rs with
  | nil => rfl
  | cons r rs ih =>
    rw [Rule.applyAll, List.foldl_cons, Rule.apply_of_misses (h r List.mem_cons_self)]
    exact ih fun r' hr => h r' (List.mem_cons_of_mem r hr)

/-- Without a closing tag no pair is found. -/
theorem TagPair.misses_of_not_isInfix {t : TagPair} (h : ¬ t.closer <:+: s.map foldCase) :
    t.pattern.Misses s := by
  intro u hu
  show t.readPair? u = none
  rw [readPair?]
  cases ho : t.readOpening? u with
  | none => rfl
  | some x =>
    obtain ⟨opening, param, r⟩ := x
    have hr : r <:+ s := by
      rw [(readOpening?_source ho).1] at hu
      exact (List.suffix_append opening r).trans hu
    have hclose : nearest? foldCase t.closer r = none :=
      nearest?_of_not_isInfix fun hi => h (hi.trans (hr.isInfix.map foldCase))
    simp only [hclose, Option.map_none]

end BBCode
