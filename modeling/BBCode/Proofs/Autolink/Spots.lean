import BBCode.Autolink
import BBCode.Proofs.Text.Occurs

/-!
# BBCode.Proofs.Autolink.Spots

What URLs and anchors are, and where they are read. A URL is read as far as its characters go. An
anchor is read by its opening tag and the nearest end behind it.

* `readUrl?_eq_some`: which text is read as a URL.
* `readAnchor?_tag`: what is read at a tag; `readAnchor?_of_not_mem`: nothing is without its end.
* `autolink_eq_self_iff`: a text stays as it is exactly if no URL in it is to be linked.
-/

namespace BBCode

theorem length_flatMap_le {α : Type} {f g : α → Text} (h : ∀ x, (g x).length ≤ (f x).length)
    (l : List α) : (l.flatMap g).length ≤ (l.flatMap f).length := by
  induction l with
  | nil => exact Nat.le_refl _
  | cons x l ih =>
    rw [List.flatMap_cons, List.flatMap_cons, List.length_append, List.length_append]
    exact Nat.add_le_add (h x) ih

/-- Where no part gets shorter, the whole stays the same only if each part does. -/
theorem flatMap_eq_flatMap_iff {α : Type} {f g : α → Text}
    (h : ∀ x, (g x).length ≤ (f x).length) {l : List α} :
    l.flatMap f = l.flatMap g ↔ ∀ x ∈ l, f x = g x := by
  induction l with
  | nil => simp
  | cons x l ih =>
    rw [List.flatMap_cons, List.flatMap_cons, List.forall_mem_cons, ← ih]
    constructor
    · intro heq
      have hlen := congrArg List.length heq
      rw [List.length_append, List.length_append] at hlen
      have := h x
      have := length_flatMap_le h l
      exact List.append_inj heq (by omega)
    · rintro ⟨hx, hl⟩
      rw [hx, hl]

namespace Autolink

/-! ## URLs -/

/-- A scheme of URLs, whatever its letter case. -/
def IsScheme (s : Text) : Prop :=
  s.map foldCase = "https://".toList ∨ s.map foldCase = "http://".toList

/-- A scheme and at least one more character. -/
structure IsUrl (u : Text) : Prop where
  scheme : ∃ scheme rest, u = scheme ++ rest ∧ IsScheme scheme ∧ rest ≠ []
  chars : ∀ c ∈ u, isUrlChar c = true

/-- No URL in front of the text goes on in it. -/
def EndsUrl (s : Text) : Prop := ∀ c ∈ s.head?, isUrlChar c = false

@[simp] theorem endsUrl_nil : EndsUrl [] := fun c hc => by cases hc

@[simp] theorem endsUrl_cons {c : Char} {s : Text} : EndsUrl (c :: s) ↔ isUrlChar c = false := by
  simp [EndsUrl]

theorem EndsUrl.append {x y : Text} (hx : EndsUrl x) (hy : EndsUrl y) : EndsUrl (x ++ y) := by
  cases x with
  | nil => exact hy
  | cons c x => exact endsUrl_cons.2 (endsUrl_cons.1 hx)

theorem EndsUrl.of_append {x y : Text} (h : EndsUrl (x ++ y)) : EndsUrl x := by
  cases x with
  | nil => exact endsUrl_nil
  | cons c x => exact endsUrl_cons.2 (endsUrl_cons.1 h)

/-- All characters that are compared as other ones can stand in a URL. -/
theorem isUrlChar_of_foldCase_ne {c : Char} (h : foldCase c ≠ c) : isUrlChar c = true := by
  have hcases : c = '\u017f' ∨ c = '\u212a' ∨ 65 ≤ c.toNat ∧ c.toNat ≤ 90 := by
    unfold foldCase at h
    split at h
    · exact .inl ‹_›
    · split at h
      · exact .inr (.inl ‹_›)
      · unfold Char.toLower at h
        split at h
        · rename_i hc
          exact .inr (.inr ⟨UInt32.le_iff_toNat_le.1 hc.1, UInt32.le_iff_toNat_le.1 hc.2⟩)
        · exact absurd rfl h
  rcases hcases with rfl | rfl | ⟨hlo, hhi⟩
  · decide
  · decide
  · have hblank : isBlank c = false := by
      have hranges : ∀ r ∈ blankRanges, r.2 < 65 ∨ 90 < r.1 := by decide
      refine List.any_eq_false.2 fun r hr => ?_
      have := hranges r hr
      simp only [Bool.and_eq_true, decide_eq_true_eq]
      omega
    have hne : ∀ d : Char, d.toNat < 65 ∨ 90 < d.toNat → c ≠ d := by
      rintro d hd rfl
      omega
    simp [isUrlChar, Guarded.isReserved, hblank, hne '<' (by decide), hne '>' (by decide),
      hne '"' (by decide), hne Guarded.placeholderStart (by decide),
      hne Guarded.placeholderStop (by decide)]

theorem IsScheme.chars {s : Text} (h : IsScheme s) : ∀ c ∈ s, isUrlChar c = true := by
  have hfold : ∀ c ∈ s, foldCase c ∈ "https://".toList := by
    intro c hc
    rcases h with h | h
    · exact h ▸ List.mem_map_of_mem hc
    · have hsub : "http://".toList ⊆ "https://".toList := by decide
      exact hsub (h ▸ List.mem_map_of_mem hc)
  have hchars : ∀ c ∈ "https://".toList, isUrlChar c = true := by decide
  intro c hc
  by_cases hne : foldCase c = c
  · exact hchars c (hne ▸ hfold c hc)
  · exact isUrlChar_of_foldCase_ne hne

namespace IsUrl

variable {u : Text}

theorem ne_nil (h : IsUrl u) : u ≠ [] := by
  obtain ⟨scheme, rest, rfl, -, hrest⟩ := h.scheme
  exact fun hnil => hrest (List.append_eq_nil_iff.1 hnil).2

theorem ne (h : IsUrl u) {c d : Char} (hd : isUrlChar d = false) (hc : c ∈ u) : c ≠ d := by
  rintro rfl
  rw [h.chars c hc] at hd
  cases hd

end IsUrl

theorem readUrl?_of_not_scheme {s : Text} (h1 : readWord? foldCase "https://".toList s = none)
    (h2 : readWord? foldCase "http://".toList s = none) : readUrl? s = none := by
  rw [readUrl?, h1, h2]
  rfl

theorem readUrl?_cons_of_ne {c : Char} (h : foldCase c ≠ 'h') (s : Text) :
    readUrl? (c :: s) = none :=
  readUrl?_of_not_scheme (readWord?_cons_of_ne h) (readWord?_cons_of_ne h)

/-- One scheme is not read where the other stands. -/
theorem readScheme?_append {scheme : Text} (h : IsScheme scheme) (r : Text) :
    (readWord? foldCase "https://".toList (scheme ++ r)).or
      (readWord? foldCase "http://".toList (scheme ++ r)) = some (scheme, r) := by
  rcases h with h | h
  · rw [readWord?_eq_some.2 ⟨h, rfl⟩, Option.some_or]
  · have hnone : readWord? foldCase "https://".toList (scheme ++ r) = none := by
      rw [Option.eq_none_iff_forall_ne_some]
      rintro ⟨a, b⟩ ha
      obtain ⟨hmap, hs⟩ := readWord?_eq_some.1 ha
      have heq := congrArg (List.map foldCase) hs
      rw [List.map_append, List.map_append, hmap, h] at heq
      -- they differ at the fifth character
      have hfifth := congrArg (·[4]?) heq
      cases hfifth
    rw [hnone, Option.none_or, readWord?_eq_some.2 ⟨h, rfl⟩]

theorem takeWhile_urlChars {x r : Text} (hx : ∀ c ∈ x, isUrlChar c = true) (hr : EndsUrl r) :
    (x ++ r).takeWhile isUrlChar = x ∧ (x ++ r).dropWhile isUrlChar = r := by
  rw [List.takeWhile_append_of_pos hx, List.dropWhile_append_of_pos hx]
  cases r with
  | nil => simp
  | cons c r => simp [endsUrl_cons.1 hr]

theorem endsUrl_dropWhile (s : Text) : EndsUrl (s.dropWhile isUrlChar) := by
  intro c hc
  have hhead := List.head?_dropWhile_not isUrlChar s
  rw [Option.mem_def.1 hc] at hhead
  simpa using hhead

/-- A URL is read as far as its characters go. -/
theorem readUrl?_eq_some {s u r : Text} :
    readUrl? s = some (u, r) ↔ IsUrl u ∧ s = u ++ r ∧ EndsUrl r := by
  constructor
  · intro h
    have hs := (readUrl?_source h).1
    unfold readUrl? at h
    split at h
    · cases h
    · rename_i scheme q hq
      have hscheme : IsScheme scheme := by
        rcases Option.or_eq_some_iff.1 hq with hq | ⟨-, hq⟩
        · exact .inl (readWord?_eq_some.1 hq).1
        · exact .inr (readWord?_eq_some.1 hq).1
      dsimp only at h
      split at h
      · cases h
      · rename_i hne
        cases h
        refine ⟨⟨⟨scheme, _, rfl, hscheme, by simpa using hne⟩, fun c hc => ?_⟩, hs,
          endsUrl_dropWhile q⟩
        rcases List.mem_append.1 hc with hc | hc
        · exact hscheme.chars c hc
        · exact List.all_eq_true.1 List.all_takeWhile c hc
  · rintro ⟨hu, rfl, hr⟩
    obtain ⟨scheme, rest, rfl, hscheme, hrest⟩ := hu.scheme
    obtain ⟨htake, hdrop⟩ := takeWhile_urlChars
      (fun c hc => hu.chars c (List.mem_append_right scheme hc)) hr
    rw [readUrl?, List.append_assoc, readScheme?_append hscheme]
    simp [htake, hdrop, hrest]

/-- A scheme with a character that can go on a URL is the start of one. -/
theorem readUrl?_ne_none {scheme : Text} (h : IsScheme scheme) {c : Char}
    (hc : isUrlChar c = true) (r : Text) : readUrl? (scheme ++ c :: r) ≠ none := by
  rw [readUrl?, readScheme?_append h]
  simp [hc]

/-- What follows with a character that ends URLs has no part in what is read. -/
theorem readUrl?_append {z : Text} (hz : EndsUrl z) (x : Text) :
    readUrl? (x ++ z) = (readUrl? x).map fun q => (q.1, q.2 ++ z) := by
  cases hx : readUrl? x with
  | some q =>
    obtain ⟨u, r⟩ := q
    obtain ⟨hu, rfl, hr⟩ := readUrl?_eq_some.1 hx
    exact readUrl?_eq_some.2 ⟨hu, List.append_assoc u r z, hr.append hz⟩
  | none =>
    rw [Option.map_none, Option.eq_none_iff_forall_ne_some]
    rintro ⟨u, r⟩ hread
    obtain ⟨hu, hs, hr⟩ := readUrl?_eq_some.1 hread
    rcases List.append_eq_append_iff.1 hs with ⟨y, rfl, rfl⟩ | ⟨y, rfl, rfl⟩
    · cases y with
      | nil =>
        rw [List.append_nil] at hu
        rw [readUrl?_eq_some.2 ⟨hu, (List.append_nil x).symm, endsUrl_nil⟩] at hx
        cases hx
      | cons c y =>
        -- the URL would have to go on behind the text
        rw [List.cons_append, endsUrl_cons, hu.chars c (by simp)] at hz
        cases hz
    · rw [readUrl?_eq_some.2 ⟨hu, rfl, hr.of_append⟩] at hx
      cases hx

/-! ## Attribute values -/

/-- The characters that a URL behind them makes the value of an attribute. -/
def leadsValue (c : Char) : Bool := c = '"' || c = '='

theorem leadsValue_iff {c : Char} : leadsValue c = true ↔ c = '"' ∨ c = '=' := by simp [leadsValue]

/-- A mark is no part of a URL behind it. -/
theorem readUrl?_of_leads {c : Char} (hc : leadsValue c = true) (s : Text) :
    readUrl? (c :: s) = none := by
  rcases leadsValue_iff.1 hc with rfl | rfl
  · exact readUrl?_cons_of_ne (by decide) s
  · exact readUrl?_cons_of_ne (by decide) s

theorem readValue?_cons {c : Char} (hc : leadsValue c = true) (s : Text) :
    readValue? (c :: s) = (readUrl? s).map fun x => (c :: x.1, x.2) :=
  if_pos hc

theorem readValue?_of_not_leads {c : Char} (hc : leadsValue c = false) (s : Text) :
    readValue? (c :: s) = none :=
  if_neg fun h => Bool.false_ne_true (hc.symm.trans h)

theorem readValue?_eq_some {s v r : Text} : readValue? s = some (v, r) ↔
    ∃ c u, leadsValue c = true ∧ IsUrl u ∧ v = c :: u ∧ s = v ++ r ∧ EndsUrl r := by
  constructor
  · intro h
    cases s with
    | nil => cases h
    | cons c s =>
      cases hc : leadsValue c with
      | false =>
        rw [readValue?_of_not_leads hc] at h
        cases h
      | true =>
        rw [readValue?_cons hc, Option.map_eq_some_iff] at h
        obtain ⟨⟨u, q⟩, hu, h⟩ := h
        cases h
        obtain ⟨hurl, rfl, hr⟩ := readUrl?_eq_some.1 hu
        exact ⟨c, u, hc, hurl, rfl, rfl, hr⟩
  · rintro ⟨c, u, hc, hu, rfl, rfl, hr⟩
    rw [List.cons_append, readValue?_cons hc, readUrl?_eq_some.2 ⟨hu, rfl, hr⟩]
    rfl

theorem IsUrl.ne_of_mem_value {u : Text} (h : IsUrl u) {c : Char} (hc : leadsValue c = true) :
    ∀ d ∈ c :: u, d ≠ '<' ∧ d ≠ '>' := by
  intro d hd
  rcases List.mem_cons.1 hd with rfl | hd
  · rcases leadsValue_iff.1 hc with rfl | rfl
    · decide
    · decide
  · exact ⟨h.ne (by decide) hd, h.ne (by decide) hd⟩

/-! ## Anchors -/

/-- Whether a tag opens an anchor that has attributes, given by what stands between its brackets. -/
def isAnchorTag : Text → Bool
  | c :: d :: _ => foldCase c = 'a' && isBlank d
  | _ => false

/-- An anchor is read by its opening tag and the nearest end behind it. -/
theorem readAnchor?_tag {tag : Text} (h : '>' ∉ tag) (r : Text) :
    readAnchor? ('<' :: (tag ++ '>' :: r)) =
      if isAnchorTag tag then
        (nearest? foldCase "</a>".toList r).map fun x =>
          ('<' :: (tag ++ '>' :: (x.1 ++ x.2.1)), x.2.2)
      else none := by
  have hlt : foldCase '<' = '<' := by decide
  have hblank : isBlank '>' = false := by decide
  have hgt : foldCase '>' ≠ 'a' := by decide
  rcases tag with _ | ⟨c, _ | ⟨d, tag⟩⟩
  · simp [readAnchor?, readWord?, isAnchorTag, hlt, hgt]
  · by_cases hc : foldCase c = 'a'
    · simp [readAnchor?, readWord?, isAnchorTag, hlt, hc, hblank]
    · simp [readAnchor?, readWord?, isAnchorTag, hlt, hc]
  · have hskip : Skips (readWord? id ['>']) (d :: tag) :=
      skips_of_head_ne fun e he heq => h (heq ▸ List.mem_cons_of_mem c he)
    have hend : nearest? id ['>'] (d :: (tag ++ '>' :: r)) = some (d :: tag, ['>'], r) :=
      nearest?_append_word (a := ['>']) hskip rfl
    by_cases hc : foldCase c = 'a'
    · cases hd : isBlank d with
      | false => simp [readAnchor?, readWord?, isAnchorTag, hlt, hc, hd]
      | true => simp [readAnchor?, readWord?, isAnchorTag, hlt, hc, hd, hend]
    · simp [readAnchor?, readWord?, isAnchorTag, hlt, hc]

theorem readAnchor?_of_ne {c : Char} (h : c ≠ '<') (s : Text) : readAnchor? (c :: s) = none := by
  have hread : readWord? foldCase "<a".toList (c :: s) = none :=
    readWord?_cons_of_ne (foldCase_lt h)
  rw [readAnchor?, hread]

theorem readAnchor?_of_not_mem {s : Text} (h : '>' ∉ s) : readAnchor? s = none := by
  rw [readAnchor?]
  split
  · rfl
  · rename_i head r hr
    have hend : nearest? id ['>'] r = none := by
      rw [Option.eq_none_iff_forall_ne_some]
      rintro ⟨b, m, q⟩ hn
      obtain ⟨rfl, hm⟩ := nearest?_append hn
      rw [List.map_id] at hm
      refine h ?_
      rw [(readWord?_eq_some.1 hr).2, hm]
      simp
    rw [hend]
    split <;> rfl

theorem readAnchor?_eq_some {s k r : Text} :
    readAnchor? s = some (k, r) ↔ ∃ tag body closing, '>' ∉ tag ∧ isAnchorTag tag = true ∧
      nearest? foldCase "</a>".toList (body ++ (closing ++ r)) = some (body, closing, r) ∧
      k = '<' :: (tag ++ '>' :: (body ++ closing)) ∧
      s = '<' :: (tag ++ '>' :: (body ++ (closing ++ r))) := by
  constructor
  · intro h
    obtain ⟨c, s, rfl⟩ : ∃ c t, s = c :: t := by
      cases s with
      | nil => cases h
      | cons c s => exact ⟨c, s, rfl⟩
    have hc : c = '<' := Decidable.of_not_not fun hne => by
      rw [readAnchor?_of_ne hne] at h
      cases h
    subst hc
    have hmem : '>' ∈ s := Decidable.of_not_not fun hno => by
      rw [readAnchor?_of_not_mem (List.not_mem_cons_of_ne_of_not_mem (by decide) hno)] at h
      cases h
    obtain ⟨tag, t, rfl, htag⟩ := List.eq_append_cons_of_mem hmem
    rw [readAnchor?_tag htag] at h
    cases hopen : isAnchorTag tag with
    | false =>
      rw [hopen] at h
      cases h
    | true =>
      simp only [hopen, if_true, Option.map_eq_some_iff, Prod.mk.injEq] at h
      obtain ⟨⟨body, closing, q⟩, hn, rfl, rfl⟩ := h
      obtain ⟨rfl, -⟩ := nearest?_append hn
      rw [List.append_assoc] at hn ⊢
      exact ⟨tag, body, closing, htag, hopen, hn, rfl, rfl⟩
  · rintro ⟨tag, body, closing, htag, hopen, hn, rfl, rfl⟩
    rw [readAnchor?_tag htag, if_pos hopen, hn]
    rfl

/-- An anchor is read whatever follows it. -/
theorem readAnchor?_congr {k r : Text} (h : readAnchor? (k ++ r) = some (k, r)) (r' : Text) :
    readAnchor? (k ++ r') = some (k, r') := by
  obtain ⟨tag, body, closing, htag, hopen, hn, rfl, -⟩ := readAnchor?_eq_some.1 h
  exact readAnchor?_eq_some.2
    ⟨tag, body, closing, htag, hopen, nearest?_append_congr hn r', rfl, by simp⟩

/-- What stands between the brackets of the opening tag of a link. -/
def linkTag (u : Text) : Text :=
  'a' :: ' ' :: ("href=\"".toList ++
    (u ++ "\" target=\"_blank\" rel=\"noopener noreferrer\"".toList))

theorem isAnchorTag_linkTag (u : Text) : isAnchorTag (linkTag u) = true := by
  have hopen : (foldCase 'a' = 'a' && isBlank ' ') = true := by decide
  exact hopen

theorem anchor_eq (u : Text) :
    Html.anchor u = '<' :: (linkTag u ++ '>' :: (u ++ "</a>".toList)) := by
  have happ : ∀ start tail close : Text,
      '<' :: 'a' :: ' ' :: start ++ u ++ (tail ++ ['>']) ++ u ++ close =
        '<' :: 'a' :: ' ' :: (start ++ (u ++ tail)) ++ '>' :: (u ++ close) := by
    intro start tail close
    simp only [List.append_assoc, List.cons_append, List.nil_append]
  have hstart : "<a href=\"".toList = '<' :: 'a' :: ' ' :: "href=\"".toList := by simp
  have htail : "\" target=\"_blank\" rel=\"noopener noreferrer\">".toList =
      "\" target=\"_blank\" rel=\"noopener noreferrer\"".toList ++ ['>'] := by simp
  refine Eq.trans ?_ (happ _ _ _)
  rw [← hstart, ← htail]
  rfl

theorem anchor_append (u r : Text) :
    Html.anchor u ++ r = '<' :: (linkTag u ++ '>' :: (u ++ ("</a>".toList ++ r))) := by
  rw [anchor_eq, List.cons_append, List.append_assoc, List.cons_append, List.append_assoc]

namespace IsUrl

variable {u : Text}

theorem ne_of_mem_linkTag (h : IsUrl u) : ∀ c ∈ linkTag u, c ≠ '<' ∧ c ≠ '>' := by
  have hfixed : ∀ c ∈ 'a' :: ' ' :: "href=\"".toList, c ≠ '<' ∧ c ≠ '>' := by decide
  have htail : ∀ c ∈ "\" target=\"_blank\" rel=\"noopener noreferrer\"".toList,
      c ≠ '<' ∧ c ≠ '>' := by decide
  intro c hc
  rcases List.mem_append.1 (show c ∈ 'a' :: ' ' :: "href=\"".toList ++ _ from hc) with hc | hc
  · exact hfixed c hc
  · rcases List.mem_append.1 hc with hc | hc
    · exact ⟨h.ne (by decide) hc, h.ne (by decide) hc⟩
    · exact htail c hc

theorem gt_not_mem_linkTag (h : IsUrl u) : '>' ∉ linkTag u := fun hc =>
  (h.ne_of_mem_linkTag _ hc).2 rfl

theorem nearest?_close (h : IsUrl u) (r : Text) :
    nearest? foldCase "</a>".toList (u ++ ("</a>".toList ++ r)) = some (u, "</a>".toList, r) :=
  nearest?_append_word (skips_of_head_ne fun c hc => foldCase_lt (h.ne (by decide) hc)) (by decide)

/-- Behind the opening tag of a link its end is the nearest. -/
theorem nearest?_anchor (h : IsUrl u) (r : Text) :
    nearest? foldCase "</a>".toList (Html.anchor u ++ r) =
      some ('<' :: (linkTag u ++ '>' :: u), "</a>".toList, r) := by
  have hskip : Skips (readWord? foldCase "</a>".toList) ('<' :: (linkTag u ++ ['>'])) := by
    refine ⟨readWord?_of_clashes (x := '<' :: (linkTag u ++ ['>'])) rfl, ?_⟩
    refine skips_of_head_ne fun c hc => foldCase_lt ?_
    rcases List.mem_append.1 hc with hc | hc
    · exact (h.ne_of_mem_linkTag c hc).1
    · rw [List.mem_singleton.1 hc]
      decide
  have happ := nearest?_append_of_skips hskip (u ++ ("</a>".toList ++ r))
  rw [h.nearest?_close, List.cons_append, List.append_assoc] at happ
  rw [anchor_append]
  exact happ.trans (by simp)

/-- The link of a URL is an anchor. -/
theorem readAnchor?_anchor (h : IsUrl u) (r : Text) :
    readAnchor? (Html.anchor u ++ r) = some (Html.anchor u, r) :=
  readAnchor?_eq_some.2 ⟨linkTag u, u, "</a>".toList, h.gt_not_mem_linkTag, isAnchorTag_linkTag u,
    h.nearest?_close r, anchor_eq u, anchor_append u r⟩

end IsUrl

/-! ## Spots -/

section

variable {s v r : Text}

theorem read?_of_anchor (h : readAnchor? s = some (v, r)) :
    pattern.read? s = some (.kept v, r) := by
  show readSpot? s = _
  rw [readSpot?, h, Option.some_or]

theorem read?_of_value (ha : readAnchor? s = none) (h : readValue? s = some (v, r)) :
    pattern.read? s = some (.kept v, r) := by
  show readSpot? s = _
  rw [readSpot?, ha, Option.none_or, h]

theorem read?_of_url (ha : readAnchor? s = none) (hv : readValue? s = none)
    (h : readUrl? s = some (v, r)) : pattern.read? s = some (.url v, r) := by
  show readSpot? s = _
  rw [readSpot?, ha, Option.none_or, hv, h]
  rfl

theorem read?_eq_none : pattern.read? s = none ↔
    readAnchor? s = none ∧ readValue? s = none ∧ readUrl? s = none := by
  constructor
  · intro h
    cases ha : readAnchor? s with
    | some x => simp [read?_of_anchor ha] at h
    | none =>
      cases hv : readValue? s with
      | some x => simp [read?_of_value ha hv] at h
      | none =>
        cases hu : readUrl? s with
        | some x => simp [read?_of_url ha hv hu] at h
        | none => exact ⟨rfl, rfl, rfl⟩
  · rintro ⟨ha, hv, hu⟩
    show readSpot? s = none
    simp only [readSpot?, ha, hv, hu, Option.or_none, Option.map_none]

end

/-! ## What linking leaves -/

theorem length_anchor (u : Text) : u.length < (Html.anchor u).length := by
  rw [anchor_eq]
  simp only [List.length_cons, List.length_append]
  omega

theorem length_source_le (p : Piece Char Spot) :
    (p.fill Spot.source).length ≤ (p.fill write).length := by
  rcases p with c | u | k
  · exact Nat.le_refl _
  · exact Nat.le_of_lt (length_anchor u)
  · exact Nat.le_refl _

theorem source_pieces (s : Text) : (pattern.pieces s).flatMap (Piece.fill Spot.source) = s :=
  Pattern.substitute_source (fun h => (readSpot?_source h).1) s

theorem length_le_autolink (s : Text) : s.length ≤ (autolink s).length := by
  have hle := length_flatMap_le length_source_le (pattern.pieces s)
  rwa [source_pieces] at hle

/-- A text stays as it is exactly if no URL in it is to be linked. -/
theorem autolink_eq_self_iff {s : Text} :
    autolink s = s ↔ ∀ u, .found (.url u) ∉ pattern.pieces s := by
  have hs : autolink s = s ↔ ∀ p ∈ pattern.pieces s, p.fill write = p.fill Spot.source := by
    rw [← flatMap_eq_flatMap_iff length_source_le, source_pieces]
    rfl
  rw [hs]
  constructor
  · intro h u hu
    have hlen := congrArg List.length (h _ hu)
    exact absurd hlen (Nat.ne_of_gt (length_anchor u))
  · intro h p hp
    rcases p with c | u | k
    · rfl
    · exact absurd hp (h u)
    · rfl

end Autolink

end BBCode
