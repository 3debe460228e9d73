import BBCode.Proofs.Autolink.Spots

/-!
# BBCode.Proofs.Autolink.Tags

What linking makes of texts and tags. Nothing changes in an anchor, from its opening tag up to its
end. Outside of anchors a tag is no different from a text: each is linked as if it stood alone. So
a tag there stays as it is only if each URL in it stands right behind a double quote or an equals
sign, and the second word of an attribute value does not.

* `autolink_append`: a text that no URL runs out of is linked by itself.
* `autolink_source`: what becomes of each tag and of the text behind it.
* `sheltered_iff`: which tags stay as they are.
* `autolink_tagged`: the statement about whole texts.
-/

namespace BBCode.Autolink

/-! ## Texts without brackets -/

theorem readValue?_append {z : Text} (hz : EndsUrl z) (c : Char) (x : Text) :
    readValue? (c :: (x ++ z)) = (readValue? (c :: x)).map fun q => (q.1, q.2 ++ z) := by
  cases hlead : leadsValue c with
  | false => rw [readValue?_of_not_leads hlead, readValue?_of_not_leads hlead, Option.map_none]
  | true =>
    rw [readValue?_cons hlead, readValue?_cons hlead, readUrl?_append hz, Option.map_map,
      Option.map_map]
    rfl

theorem read?_append {z : Text} (hz : EndsUrl z) {c : Char} (hc : c ≠ '<') (x : Text) :
    pattern.read? (c :: (x ++ z)) = (pattern.read? (c :: x)).map fun q => (q.1, q.2 ++ z) := by
  have hurl := readUrl?_append hz (c :: x)
  rw [List.cons_append] at hurl
  show readSpot? _ = (readSpot? _).map _
  rw [readSpot?, readSpot?, readAnchor?_of_ne hc, readAnchor?_of_ne hc, Option.none_or,
    Option.none_or, readValue?_append hz, hurl]
  cases readValue? (c :: x) with
  | some q => rfl
  | none => cases readUrl? (c :: x) <;> rfl

/-- A text in which no anchor starts and that no URL runs out of is linked by itself. -/
theorem autolink_append {x z : Text} (hx : '<' ∉ x) (hz : EndsUrl z) :
    autolink (x ++ z) = autolink x ++ autolink z := by
  show pattern.substitute write (x ++ z) =
    (pattern.pieces x).flatMap (Piece.fill write) ++ autolink z
  fun_induction Pattern.pieces pattern x with
  | case1 => rfl
  | case2 c s a r hr ih =>
    have hc : c ≠ '<' := fun h => hx (h ▸ List.mem_cons_self)
    have hlt : '<' ∉ r := fun h => hx ((readSpot?_source hr).1 ▸ List.mem_append_right _ h)
    have hread := read?_append hz hc s
    rw [hr] at hread
    rw [List.cons_append, Pattern.substitute_of_read hread, ih hlt, List.flatMap_cons,
      List.append_assoc]
    rfl
  | case3 c s hn ih =>
    have hc : c ≠ '<' := fun h => hx (h ▸ List.mem_cons_self)
    have hread := read?_append hz hc s
    rw [hn] at hread
    rw [List.cons_append, Pattern.substitute_of_not_read hread,
      ih fun h => hx (List.mem_cons_of_mem c h)]
    rfl

/-- A character with which no spot starts stays. -/
theorem autolink_cons {c : Char} {s : Text} (ha : readAnchor? (c :: s) = none)
    (hlead : leadsValue c = false) (hscheme : foldCase c ≠ 'h') :
    autolink (c :: s) = c :: autolink s :=
  Pattern.substitute_of_not_read <| read?_eq_none.2
    ⟨ha, readValue?_of_not_leads hlead s, readUrl?_cons_of_ne hscheme s⟩

/-! ## URLs behind marks -/

/-- The URLs of a text. -/
def urls : Pattern Char Text where
  read? := readUrl?
  shorter h := by
    obtain ⟨rfl, hne⟩ := readUrl?_source h
    have := List.length_pos_iff.2 hne
    simp only [List.length_append]
    omega

/-- Whether each URL among the pieces stands behind a double quote or an equals sign, `lead` telling
whether one stands in front of them. -/
def sheltered (lead : Bool) : List (Piece Char Text) → Bool
  | [] => true
  | .plain c :: ps => sheltered (leadsValue c) ps
  | .found _ :: ps => lead && sheltered false ps

/-- Each URL of the text stands right behind a double quote or an equals sign. -/
def Sheltered (s : Text) : Prop := sheltered false (urls.pieces s) = true

instance (s : Text) : Decidable (Sheltered s) :=
  inferInstanceAs (Decidable (sheltered false (urls.pieces s) = true))

theorem pieces_urls_value {c : Char} {u r : Text} (hc : leadsValue c = true) (hu : IsUrl u)
    (hr : EndsUrl r) : urls.pieces (c :: (u ++ r)) = .plain c :: .found u :: urls.pieces r := by
  have hnone : urls.read? (c :: (u ++ r)) = none := readUrl?_of_leads hc (u ++ r)
  have hfound : urls.read? (u ++ r) = some (u, r) := readUrl?_eq_some.2 ⟨hu, rfl, hr⟩
  rw [Pattern.pieces_of_not_read hnone, Pattern.pieces_of_read hfound]

/-- Where no URL starts, a mark in front does not matter. -/
theorem sheltered_of_readUrl?_eq_none {s : Text} (h : readUrl? s = none) (lead : Bool) :
    sheltered lead (urls.pieces s) = sheltered false (urls.pieces s) := by
  cases s with
  | nil => rw [Pattern.pieces_nil]; rfl
  | cons c s =>
    have hnone : urls.read? (c :: s) = none := h
    rw [Pattern.pieces_of_not_read hnone]
    rfl

/-- A text in which no anchor starts stays as it is exactly if all of its URLs stand behind a double
quote or an equals sign. -/
theorem sheltered_iff {s : Text} (hs : '<' ∉ s) : autolink s = s ↔ Sheltered s := by
  rw [autolink_eq_self_iff, Sheltered]
  fun_induction Pattern.pieces pattern s with
  | case1 => simp [sheltered]
  | case2 c s x r hx ih =>
    have hc : c ≠ '<' := fun h => hs (h ▸ List.mem_cons_self)
    have hr : '<' ∉ r := fun h => hs ((readSpot?_source hx).1 ▸ List.mem_append_right _ h)
    cases hv : readValue? (c :: s) with
    | some q =>
      rw [read?_of_value (readAnchor?_of_ne hc s) hv] at hx
      cases hx
      obtain ⟨d, u, hd, hu, hq, heq, hend⟩ := readValue?_eq_some.1 hv
      rw [heq, hq, List.cons_append, pieces_urls_value hd hu hend, sheltered, sheltered, hd,
        Bool.true_and, ← ih hr]
      simp
    | none =>
      cases hu : readUrl? (c :: s) with
      | none =>
        rw [read?_eq_none.2 ⟨readAnchor?_of_ne hc s, hv, hu⟩] at hx
        cases hx
      | some q =>
        have hfound : urls.read? (c :: s) = some (q.1, q.2) := hu
        rw [read?_of_url (readAnchor?_of_ne hc s) hv hu] at hx
        cases hx
        rw [Pattern.pieces_of_read hfound, sheltered, Bool.false_and]
        refine ⟨fun h => absurd List.mem_cons_self (h q.1), fun h => by cases h⟩
  | case3 c s hn ih =>
    obtain ⟨-, hv, hu⟩ := read?_eq_none.1 hn
    have hnone : urls.read? (c :: s) = none := hu
    have hlead : sheltered (leadsValue c) (urls.pieces s) = sheltered false (urls.pieces s) := by
      cases hc : leadsValue c with
      | false => rfl
      | true =>
        rw [readValue?_cons hc, Option.map_eq_none_iff] at hv
        exact sheltered_of_readUrl?_eq_none hv true
    rw [Pattern.pieces_of_not_read hnone, sheltered, hlead,
      ← ih fun h => hs (List.mem_cons_of_mem c h)]
    simp

/-! ## Texts and tags -/

/-- A text without angle brackets. -/
abbrev Flat := {s : Text // ∀ c ∈ s, c ≠ '<' ∧ c ≠ '>'}

/-- A text of complete tags and texts between them: the text in front of all tags and, for each tag,
what stands between its brackets and the text behind it. -/
structure Tagged where
  front : Flat
  tags : List (Flat × Flat)

/-- Tags and the texts behind them. -/
def tagsSource : List (Flat × Flat) → Text
  | [] => []
  | (tag, text) :: xs => '<' :: (tag ++ '>' :: (text ++ tagsSource xs))

def Tagged.source (m : Tagged) : Text := m.front ++ tagsSource m.tags

/-- Whether a tag ends an anchor. -/
def isAnchorEnd (tag : Text) : Bool := tag.map foldCase = "/a".toList

/-- A tag and the text behind it, with whether they are part of an anchor. -/
structure Stretch where
  tag : Flat
  text : Flat
  tagHeld : Bool
  textHeld : Bool

/-- Tags with the texts behind them, `inside` telling whether the first one stands in an anchor. A
tag opens an anchor only if it ends somewhere. -/
def stretches (inside : Bool) : List (Flat × Flat) → List Stretch
  | [] => []
  | (tag, text) :: xs =>
    let next :=
      if inside then !isAnchorEnd tag else isAnchorTag tag && xs.any fun x => isAnchorEnd x.1
    ⟨tag, text, inside || next, next⟩ :: stretches next xs

/-- A stretch with its text linked outside of anchors, and its tag there as `f` makes it. -/
def Stretch.write (f : Text → Text) (x : Stretch) : Text :=
  '<' :: ((if x.tagHeld then x.tag.1 else f x.tag) ++
    '>' :: (if x.textHeld then x.text.1 else autolink x.text))

def Tagged.stretches (m : Tagged) : List Stretch := Autolink.stretches false m.tags

/-- The text with its texts outside of anchors linked, and the tags there as `f` makes them. -/
def Tagged.linked (f : Text → Text) (m : Tagged) : Text :=
  autolink m.front ++ m.stretches.flatMap (Stretch.write f)

theorem lt_not_mem (x : Flat) : '<' ∉ x.1 := fun h => (x.2 _ h).1 rfl

theorem gt_not_mem (x : Flat) : '>' ∉ x.1 := fun h => (x.2 _ h).2 rfl

theorem endsUrl_tagsSource (xs : List (Flat × Flat)) : EndsUrl (tagsSource xs) := by
  cases xs with
  | nil => exact endsUrl_nil
  | cons x xs => exact endsUrl_cons.2 (by decide)

/-- The end of an anchor is a tag. -/
theorem readWord?_tag {tag : Text} (h : '>' ∉ tag) (y : Text) :
    readWord? foldCase "</a>".toList ('<' :: (tag ++ '>' :: y)) =
      if isAnchorEnd tag then some ('<' :: (tag ++ ['>']), y) else none := by
  have hend : "</a>".toList = '<' :: ("/a".toList ++ ['>']) := by simp
  have hlt : foldCase '<' = '<' := by decide
  have hgt : foldCase '>' = '>' := by decide
  split
  · rename_i hmap
    refine readWord?_eq_some.2 ⟨?_, by simp⟩
    rw [hend, List.map_cons, List.map_append, of_decide_eq_true hmap, hlt, List.map_singleton,
      hgt]
  · rename_i hmap
    rw [Option.eq_none_iff_forall_ne_some]
    rintro ⟨m, q⟩ hread
    obtain ⟨hm, hs⟩ := readWord?_eq_some.1 hread
    rw [hend, ← List.cons_append] at hm
    obtain ⟨x, z, rfl, hx, hz⟩ := List.map_eq_append_iff.1 hm
    obtain ⟨d, rfl, hd⟩ := List.map_eq_singleton_iff.1 hz
    rw [foldCase_eq (by decide) hd] at hs
    have hx' : '>' ∉ x := by
      intro hmem
      have : foldCase '>' ∈ '<' :: "/a".toList := hx ▸ List.mem_map_of_mem hmem
      exact absurd this (by decide)
    -- the word ends with the tag
    have heq : '<' :: tag ++ '>' :: y = x ++ '>' :: q := by
      rw [List.cons_append, hs]
      simp
    have h' : '>' ∉ '<' :: tag := List.not_mem_cons_of_ne_of_not_mem (by decide) h
    obtain ⟨htag, -⟩ := append_cons_inj h' hx' heq
    rw [← htag, List.map_cons, List.cons.injEq] at hx
    exact hmap (decide_eq_true hx.2)

theorem nearest?_tag (tag text : Flat) (xs : List (Flat × Flat)) :
    nearest? foldCase "</a>".toList (tagsSource ((tag, text) :: xs)) =
      if isAnchorEnd tag then some ([], '<' :: (tag.1 ++ ['>']), text ++ tagsSource xs)
      else (nearest? foldCase "</a>".toList (tagsSource xs)).map fun q =>
        ('<' :: (tag.1 ++ '>' :: (text.1 ++ q.1)), q.2) := by
  have hskip : Skips (readWord? foldCase "</a>".toList) (tag.1 ++ '>' :: text.1) := by
    refine skips_of_head_ne fun c hc => foldCase_lt ?_
    rintro rfl
    rcases List.mem_append.1 hc with hc | hc
    · exact lt_not_mem tag hc
    · exact lt_not_mem text (List.mem_of_ne_of_mem (by decide) hc)
  have hread := readWord?_tag (gt_not_mem tag) (text ++ tagsSource xs)
  rw [tagsSource]
  cases hend : isAnchorEnd tag.1 with
  | true =>
    rw [hend] at hread
    exact nearest?_of_read hread
  | false =>
    rw [hend] at hread
    have happ : tag.1 ++ '>' :: (text.1 ++ tagsSource xs) =
        (tag.1 ++ '>' :: text.1) ++ tagsSource xs := by simp
    rw [nearest?, hread, happ, nearest?_append_of_skips hskip, Option.map_map]
    simp [Function.comp_def]

theorem isSome_nearest? (xs : List (Flat × Flat)) :
    (nearest? foldCase "</a>".toList (tagsSource xs)).isSome = xs.any fun x => isAnchorEnd x.1 := by
  induction xs with
  | nil => rfl
  | cons x xs ih =>
    obtain ⟨tag, text⟩ := x
    rw [nearest?_tag, List.any_cons, ← ih]
    cases isAnchorEnd tag.1 with
    | false => simp
    | true => simp

theorem readAnchor?_tagsSource (tag text : Flat) (xs : List (Flat × Flat)) :
    readAnchor? (tagsSource ((tag, text) :: xs)) =
      if isAnchorTag tag then (nearest? foldCase "</a>".toList (tagsSource xs)).map fun q =>
        ('<' :: (tag.1 ++ '>' :: (text.1 ++ (q.1 ++ q.2.1))), q.2.2)
      else none := by
  have hskip : Skips (readWord? foldCase "</a>".toList) text.1 :=
    skips_of_head_ne fun c hc => foldCase_lt (text.2 c hc).1
  rw [tagsSource, readAnchor?_tag (gt_not_mem tag), nearest?_append_of_skips hskip, Option.map_map]
  simp [Function.comp_def]

/-- An anchor starts at a tag only if it ends somewhere. -/
theorem readAnchor?_tagsSource_eq_none (tag text : Flat) (xs : List (Flat × Flat)) :
    readAnchor? (tagsSource ((tag, text) :: xs)) = none ↔
      (isAnchorTag tag && xs.any fun x => isAnchorEnd x.1) = false := by
  rw [readAnchor?_tagsSource, ← isSome_nearest?]
  cases isAnchorTag tag.1 with
  | false => simp
  | true => simp

theorem autolink_looseTag {tag text : Flat} {xs : List (Flat × Flat)}
    (h : readAnchor? (tagsSource ((tag, text) :: xs)) = none) :
    autolink (tagsSource ((tag, text) :: xs)) =
      '<' :: (autolink tag ++ '>' :: (autolink text ++ autolink (tagsSource xs))) := by
  have hgt : EndsUrl ('>' :: (text.1 ++ tagsSource xs)) := endsUrl_cons.2 (by decide)
  rw [tagsSource] at h ⊢
  rw [autolink_cons h (by decide) (by decide), autolink_append (lt_not_mem tag) hgt,
    autolink_cons (readAnchor?_of_ne (by decide) _) (by decide) (by decide),
    autolink_append (lt_not_mem text) (endsUrl_tagsSource xs)]

/-- What becomes of tags and the texts behind them, outside of anchors and from inside of one. -/
theorem autolink_source (xs : List (Flat × Flat)) :
    autolink (tagsSource xs) = (stretches false xs).flatMap (Stretch.write autolink) ∧
      ∀ b m q, nearest? foldCase "</a>".toList (tagsSource xs) = some (b, m, q) →
        b ++ (m ++ autolink q) = (stretches true xs).flatMap (Stretch.write autolink) := by
  induction xs with
  | nil =>
    refine ⟨by simp [tagsSource, stretches, autolink], fun b m q h => ?_⟩
    cases h
  | cons x xs ih =>
    obtain ⟨tag, text⟩ := x
    obtain ⟨houtside, hinside⟩ := ih
    constructor
    · cases hopen : isAnchorTag tag.1 && xs.any fun x => isAnchorEnd x.1 with
      | true =>
        obtain ⟨htag, hend⟩ := Bool.and_eq_true_iff.1 hopen
        obtain ⟨⟨b, m, q⟩, hn⟩ := Option.isSome_iff_exists.1 ((isSome_nearest? xs).trans hend)
        have hread := readAnchor?_tagsSource tag text xs
        rw [htag, hn] at hread
        rw [autolink, Pattern.substitute_of_read (read?_of_anchor hread)]
        simp [stretches, hopen, Stretch.write, write, ← hinside b m q hn, autolink]
      | false =>
        rw [autolink_looseTag ((readAnchor?_tagsSource_eq_none tag text xs).2 hopen), houtside]
        simp [stretches, hopen, Stretch.write]
    · intro b m q h
      rw [nearest?_tag] at h
      cases hend : isAnchorEnd tag.1 with
      | true =>
        rw [hend] at h
        cases h
        rw [autolink_append (lt_not_mem text) (endsUrl_tagsSource xs), houtside]
        simp [stretches, hend, Stretch.write]
      | false =>
        rw [hend] at h
        obtain ⟨⟨b', m', q'⟩, hn, heq⟩ := Option.map_eq_some_iff.1 h
        cases heq
        simp [stretches, hend, Stretch.write, ← hinside b' m q hn]

theorem Stretch.write_eq_iff (x : Stretch) :
    x.write autolink = x.write id ↔ (x.tagHeld = false → Sheltered x.tag) := by
  rw [← sheltered_iff (lt_not_mem x.tag), Stretch.write, Stretch.write, List.cons.injEq,
    List.append_left_inj]
  cases x.tagHeld with
  | false => simp
  | true => simp

theorem Stretch.length_write_le (x : Stretch) :
    (x.write id).length ≤ (x.write autolink).length := by
  have := length_le_autolink x.tag
  cases h : x.tagHeld with
  | false => simp [Stretch.write, h, this]
  | true => simp [Stretch.write, h]

/-- Outside of anchors each text is linked by itself, and so is each tag. All tags stay as they are
exactly if each URL in a tag outside of anchors stands right behind a double quote or an equals
sign. -/
theorem autolink_tagged (m : Tagged) :
    autolink m.source = m.linked autolink ∧
      (autolink m.source = m.linked id ↔
        ∀ x ∈ m.stretches, x.tagHeld = false → Sheltered x.tag) := by
  have hsource : autolink m.source = m.linked autolink := by
    rw [Tagged.source, autolink_append (lt_not_mem m.front) (endsUrl_tagsSource m.tags),
      (autolink_source m.tags).1]
    rfl
  refine ⟨hsource, ?_⟩
  rw [hsource, Tagged.linked, Tagged.linked, List.append_right_inj,
    flatMap_eq_flatMap_iff Stretch.length_write_le]
  simp only [Stretch.write_eq_iff]

/-- The second word of the source of an image is linked, and the tag is gone. -/
theorem image_broken : ¬ ∀ m : Tagged, ∀ x ∈ m.tags,
    '<' :: (x.1.1 ++ ['>']) <:+: autolink m.source := by
  intro h
  have htag := h ⟨⟨[], by decide⟩,
    [(⟨"img src=\"a http://b\" /".toList, by decide⟩, ⟨[], by decide⟩)]⟩ _ List.mem_cons_self
  revert htag
  decide +kernel

end BBCode.Autolink
