import BBCode.Proofs.Text.Occurs

/-!
# BBCode.Proofs.Rule.Nearest

Paired tags, found by going from the nearest opening tag to the nearest closing tag behind it. A
rule tries its pattern at every character of a text; the loop here stops for good at the first
opening tag that no closing tag follows, because what opens later has even less text behind it.

* `readOpening?_length_le`: an opening tag that starts later does not end earlier.
* `pieces_of_nearestPair?`, `misses_of_nearestPair?`: what one round of the loop finds, and where
  the loop stops.
* `apply_eq_rewrite`: a rule for a pair of tags is the loop.
* `nearestPair?_spec`: what stands between the tags that one round pairs.
-/

namespace BBCode

/-- A word that is searched for from a later place on does not end earlier. -/
theorem nearest?_length_le {f : Char → Char} {w s u b a r b' a' r' : Text} (hu : u <:+ s)
    (h : nearest? f w s = some (b, a, r)) (h' : nearest? f w u = some (b', a', r')) :
    r'.length ≤ r.length := by
  induction s generalizing b with
  | nil =>
    obtain rfl := List.suffix_nil.1 hu
    rw [h] at h'
    cases h'
    exact Nat.le_refl _
  | cons c s ih =>
    rcases List.suffix_cons_iff.1 hu with rfl | hu
    · rw [h] at h'
      cases h'
      exact Nat.le_refl _
    · rw [nearest?] at h
      split at h
      · rename_i x hx
        cases h
        -- the word stands right here, so any later one ends later
        obtain ⟨hu', hw'⟩ := nearest?_append h'
        have hs := readWord?_length hx
        have hw := congrArg List.length hw'
        have hlen := congrArg List.length hu'
        have hle := hu.length_le
        simp only [List.length_cons, List.length_map, List.length_append] at hs hw hlen
        omega
      · simp only [Option.map_eq_some_iff, Prod.mk.injEq] at h
        obtain ⟨⟨d, x⟩, hx, -, rfl⟩ := h
        exact ih hu hx

namespace TagPair

variable {t : TagPair} {s : Text}

/-- The nearest opening tag: the text before it, its spelling, its value, the text after it. -/
def nearestOpening? (t : TagPair) : Text → Option (Text × Text × Text × Text)
  | [] => none
  | c :: s =>
    match t.readOpening? (c :: s) with
    | some x => some ([], x)
    | none => (nearestOpening? t s).map fun x => (c :: x.1, x.2)

/-- The nearest opening tag with the nearest closing tag behind it: the text before the pair, the
pair, the text after it. -/
def nearestPair? (t : TagPair) (s : Text) : Option (Text × Region × Text) :=
  match t.nearestOpening? s with
  | none => none
  | some (before, opening, param, r) =>
    (nearest? foldCase t.closer r).map fun x =>
      (before, ⟨opening, param, x.1, x.2.1⟩, x.2.2)

/-! ## Opening tags -/

theorem nearestOpening?_source {b o p r : Text} (h : t.nearestOpening? s = some (b, o, p, r)) :
    s = b ++ (o ++ r) ∧ t.readOpening? (o ++ r) = some (o, p, r) := by
  induction s generalizing b with
  | nil => cases h
  | cons c s ih =>
    rw [nearestOpening?] at h
    split at h
    · rename_i x hx
      cases h
      have hs := (readOpening?_source hx).1
      exact ⟨hs, hs ▸ hx⟩
    · simp only [Option.map_eq_some_iff, Prod.mk.injEq] at h
      obtain ⟨⟨b', x⟩, hx, rfl, rfl⟩ := h
      obtain ⟨hs, hread⟩ := ih hx
      exact ⟨congrArg (c :: ·) hs, hread⟩

/-- No opening tag starts in front of the nearest one. -/
theorem skipsBefore_of_nearestOpening? {b o p r : Text}
    (h : t.nearestOpening? s = some (b, o, p, r)) : SkipsBefore t.readOpening? (o ++ r) b := by
  induction s generalizing b with
  | nil => cases h
  | cons c s ih =>
    rw [nearestOpening?] at h
    split at h
    · cases h
      exact trivial
    · rename_i hn
      simp only [Option.map_eq_some_iff, Prod.mk.injEq] at h
      obtain ⟨⟨b', x⟩, hx, rfl, rfl⟩ := h
      exact ⟨(nearestOpening?_source hx).1 ▸ hn, ih hx⟩

/-- Without an opening tag none is read anywhere. -/
theorem skipsBefore_of_nearestOpening?_none (h : t.nearestOpening? s = none) :
    SkipsBefore t.readOpening? [] s := by
  induction s with
  | nil => exact trivial
  | cons c s ih =>
    rw [nearestOpening?] at h
    split at h
    · cases h
    · rename_i hn
      exact ⟨(List.append_nil s).symm ▸ hn, ih (Option.map_eq_none_iff.1 h)⟩

/-- An opening tag that starts later does not end earlier. -/
theorem readOpening?_length_le {u o p r o' p' r' : Text} (hu : u <:+ s)
    (h : t.readOpening? s = some (o, p, r)) (h' : t.readOpening? u = some (o', p', r')) :
    r'.length ≤ r.length := by
  have hle := hu.length_le
  unfold readOpening? at h h'
  split at h
  · rename_i hvalue
    simp only [hvalue, Option.map_eq_some_iff, Prod.mk.injEq] at h h'
    obtain ⟨x, hx, -, -, rfl⟩ := h
    obtain ⟨x', hx', -, -, rfl⟩ := h'
    have hlen := readWord?_length hx
    have hlen' := readWord?_length hx'
    omega
  · rename_i v hvalue
    simp only [hvalue] at h'
    split at h
    · cases h
    · rename_i head q hq
      split at h
      · cases h
      · rename_i value mark rest hn
        split at h
        · cases h
          split at h'
          · cases h'
          · rename_i head' q' hq'
            split at h'
            · cases h'
            · rename_i value' mark' rest' hn'
              split at h'
              · cases h'
                -- both tags start with the same word, so their values start in the same order
                have hlen := readWord?_length hq
                have hlen' := readWord?_length hq'
                have hsuffix : q <:+ s := ⟨head, (readWord?_eq_some.1 hq).2.symm⟩
                have hsuffix' : q' <:+ s :=
                  .trans ⟨head', (readWord?_eq_some.1 hq').2.symm⟩ hu
                have hqs : q' <:+ q :=
                  List.suffix_of_suffix_length_le hsuffix' hsuffix (by omega)
                exact nearest?_length_le hqs hn hn'
              · cases h'
        · cases h

/-! ## One round -/

theorem readPair?_of_readOpening?_none {u : Text} (h : t.readOpening? u = none) :
    t.readPair? u = none := by
  rw [readPair?, h]

theorem nearestPair?_source {before after : Text} {x : Region}
    (h : t.nearestPair? s = some (before, x, after)) :
    s = before ++ (x.source ++ after) ∧ t.readPair? (x.source ++ after) = some (x, after) ∧
      SkipsBefore t.readOpening? (x.source ++ after) before := by
  unfold nearestPair? at h
  split at h
  · cases h
  · rename_i b o p r ho
    simp only [Option.map_eq_some_iff, Prod.mk.injEq] at h
    obtain ⟨⟨body, closing, rest⟩, hn, rfl, rfl, rfl⟩ := h
    obtain ⟨hs, hread⟩ := nearestOpening?_source ho
    have hr := (nearest?_append hn).1
    have hor : o ++ r = Region.source ⟨o, p, body, closing⟩ ++ rest := by
      rw [hr, Region.source]
      simp
    rw [← hor]
    refine ⟨hs, ?_, skipsBefore_of_nearestOpening? ho⟩
    rw [readPair?, hread]
    simp only [hn, Option.map_some]

/-- A round finds the first pair. -/
theorem pieces_of_nearestPair? {before after : Text} {x : Region}
    (h : t.nearestPair? s = some (before, x, after)) :
    t.pattern.pieces s = before.map .plain ++ .found x :: t.pattern.pieces after := by
  obtain ⟨rfl, hread, hskip⟩ := nearestPair?_source h
  have hskip : SkipsBefore t.pattern.read? (x.source ++ after) before :=
    hskip.imp fun u => readPair?_of_readOpening?_none
  have hread : t.pattern.read? (x.source ++ after) = some (x, after) := hread
  rw [hskip.pieces_append, Pattern.pieces_of_read hread]

/-- Where no closing tag follows the first opening tag, none follows a later one. -/
theorem misses_of_nearestPair? (h : t.nearestPair? s = none) : t.pattern.Misses s := by
  intro u hu
  show t.readPair? u = none
  rw [readPair?]
  cases hopen : t.readOpening? u with
  | none => rfl
  | some x =>
    obtain ⟨o, p, r⟩ := x
    obtain ⟨hsource, hne⟩ := readOpening?_source hopen
    unfold nearestPair? at h
    split at h
    · rename_i hnone
      have hskip := skipsBefore_of_nearestOpening?_none hnone
      have hnil := hskip.suffix_of_read ((List.append_nil s).symm ▸ hu) hopen
      obtain rfl := List.suffix_nil.1 hnil
      exact absurd (List.append_eq_nil_iff.1 hsource.symm).1 hne
    · rename_i b o₁ p₁ r₁ hfirst
      obtain ⟨rfl, hread⟩ := nearestOpening?_source hfirst
      have hlate := (skipsBefore_of_nearestOpening? hfirst).suffix_of_read hu hopen
      have hr : r <:+ r₁ :=
        List.suffix_of_suffix_length_le (.trans ⟨o, hsource.symm⟩ hlate) (List.suffix_append o₁ r₁)
          (readOpening?_length_le hlate hread hopen)
      have hclose : nearest? foldCase t.closer r₁ = none := Option.map_eq_none_iff.1 h
      have hlast : nearest? foldCase t.closer r = none := by
        obtain ⟨x, rfl⟩ := hr
        exact Classical.byContradiction fun hfound => nearest?_append_ne_none hfound hclose
      simp only [hlast, Option.map_none]

/-- What a round leaves is in front of the pair, in the pair or behind it; the value of the opening
tag runs up to the first mark that ends it, and the body up to the first closing tag. -/
theorem nearestPair?_spec {before after : Text} {x : Region}
    (h : t.nearestPair? s = some (before, x, after)) :
    s = before ++ (x.source ++ after) ∧ ¬ t.closer <:+: x.body.map foldCase ∧
      ∀ v, t.value = some v → v.after ≠ [] → ¬ v.after <:+: x.param := by
  obtain ⟨hs, hread, -⟩ := nearestPair?_source h
  have hcloser : t.closer ≠ [] := by simp [closer]
  unfold readPair? at hread
  split at hread
  · cases hread
  · rename_i o p r ho
    simp only [Option.map_eq_some_iff, Prod.mk.injEq] at hread
    obtain ⟨y, hn, rfl, rfl⟩ := hread
    refine ⟨hs, not_infix_of_nearest? hcloser hn, fun v hv hne => ?_⟩
    unfold readOpening? at ho
    simp only [hv] at ho
    split at ho
    · cases ho
    · split at ho
      · cases ho
      · rename_i value mark rest hvalue
        split at ho
        · cases ho
          simpa using not_infix_of_nearest? hne hvalue
        · cases ho

theorem nearestPair?_length {before after : Text} {x : Region}
    (h : t.nearestPair? s = some (before, x, after)) : after.length < s.length := by
  obtain ⟨rfl, hread, -⟩ := nearestPair?_source h
  have hlen := readPair?_length hread
  rw [List.length_append]
  omega

/-! ## The loop -/

/-- Goes through a text from one pair of tags to the next, copies what stands between pairs and
writes what `emit` makes of each pair. Without a further pair the rest is copied. -/
def rewrite (t : TagPair) (emit : Tally → Region → Text × Tally) (s : Text) (c : Tally) :
    Text × Tally :=
  match _h : t.nearestPair? s with
  | none => (s, c)
  | some (before, x, after) =>
    let written := emit c x
    let rest := t.rewrite emit after written.2
    (before ++ written.1 ++ rest.1, rest.2)
termination_by s.length
decreasing_by exact nearestPair?_length _h

variable {emit : Tally → Region → Text × Tally} {c : Tally}

theorem rewrite_of_none (h : t.nearestPair? s = none) : t.rewrite emit s c = (s, c) := by
  rw [rewrite]
  split
  · rfl
  · rename_i hs
    rw [h] at hs
    cases hs

theorem rewrite_of_some {before after : Text} {x : Region}
    (h : t.nearestPair? s = some (before, x, after)) :
    t.rewrite emit s c =
      (before ++ (emit c x).1 ++ (t.rewrite emit after (emit c x).2).1,
        (t.rewrite emit after (emit c x).2).2) := by
  rw [rewrite]
  split
  · rename_i hs
    rw [h] at hs
    cases hs
  · rename_i hs
    rw [h] at hs
    cases hs
    rfl

end TagPair

/-- What an action writes for a pair of tags, and what it counts. -/
def Action.emit (o : Options) : Action → Tally → Region → Text × Tally
  | .replace f, c, x => (f x, c)
  | .numbered f, c, x => (f o c.cards x, c.nextCard.2)

namespace Rule

variable {o : Options} {t : TagPair} {name : String}

theorem apply_of_nearestPair? (a : Action) {s before after : Text} {x : Region} (c : Tally)
    (h : t.nearestPair? s = some (before, x, after)) :
    (Rule.mk name t.pattern a).apply o (s, c) =
      (before ++ (a.emit o c x).1 ++
          ((Rule.mk name t.pattern a).apply o (after, (a.emit o c x).2)).1,
        ((Rule.mk name t.pattern a).apply o (after, (a.emit o c x).2)).2) := by
  have hpieces := TagPair.pieces_of_nearestPair? h
  cases a with
  | replace f =>
    simp only [apply_replace, Pattern.substitute, hpieces, List.flatMap_append, List.flatMap_map,
      List.flatMap_cons, Piece.fill, Action.emit, List.append_assoc]
    rw [List.flatMap_singleton']
  | numbered f =>
    simp only [Rule.apply, hpieces, Piece.fillFrom_plain, Piece.fillFrom, Action.emit,
      Tally.nextCard, List.append_assoc]

/-- A rule for a pair of tags goes from the nearest opening tag to the nearest closing tag behind
it, writes what it makes of the pair, goes on right behind the closing tag, and copies the rest
where it finds no further pair. -/
theorem apply_eq_rewrite (o : Options) (name : String) (t : TagPair) (a : Action) (s : Text)
    (c : Tally) :
    (Rule.mk name t.pattern a).apply o (s, c) = t.rewrite (a.emit o) s c := by
  induction hlen : s.length using Nat.strongRecOn generalizing s c with
  | ind len ih =>
    subst hlen
    cases h : t.nearestPair? s with
    | none =>
      have hmiss : (Rule.mk name t.pattern a).pattern.Misses s := TagPair.misses_of_nearestPair? h
      rw [apply_of_misses hmiss, TagPair.rewrite_of_none h]
    | some found =>
      obtain ⟨before, x, after⟩ := found
      rw [apply_of_nearestPair? a c h, TagPair.rewrite_of_some h,
        ih _ (TagPair.nearestPair?_length h) after _ rfl]

end Rule

end BBCode
