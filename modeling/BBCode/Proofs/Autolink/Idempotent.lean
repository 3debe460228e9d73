import BBCode.Proofs.Autolink.Spots

/-!
# BBCode.Proofs.Autolink.Idempotent

Linking the URLs of a text again changes nothing. The links of the first pass may end an anchor
that was open in front of them, so that the second pass reads longer anchors. What is behind such
an anchor is still what the first pass made of a shorter text, and a link whose start is read as
part of an anchor ends with it.

* `Links`: how a text and its linked text go together, spot by spot.
* `Links.exists_of_readAnchor?`: what stands behind an anchor that only the linked text has.
* `Links.not_found`: in a linked text no URL is to be linked.
-/

namespace BBCode.Autolink

/-- The text on the right is the one on the left with its URLs linked. -/
inductive Links : Text → Text → Prop
  | nil : Links [] []
  | url {u s t : Text} (hu : IsUrl u) (h : Links s t) : Links (u ++ s) (Html.anchor u ++ t)
  | anchor {k s t : Text} (hk : readAnchor? (k ++ s) = some (k, s)) (h : Links s t) :
      Links (k ++ s) (k ++ t)
  | value {c : Char} {u s t : Text} (hc : leadsValue c = true) (hu : IsUrl u) (hs : EndsUrl s)
      (h : Links s t) : Links (c :: (u ++ s)) (c :: (u ++ t))
  | char {c : Char} {s t : Text} (hc : pattern.read? (c :: s) = none) (h : Links s t) :
      Links (c :: s) (c :: t)

theorem links_autolink (s : Text) : Links s (autolink s) := by
  rw [autolink, Pattern.substitute]
  fun_induction Pattern.pieces pattern s with
  | case1 => exact .nil
  | case2 c s x r hx ih =>
    rw [List.flatMap_cons]
    change readSpot? (c :: s) = some (x, r) at hx
    rw [readSpot?] at hx
    split at hx
    · rename_i k q hk
      cases hx
      rcases Option.or_eq_some_iff.1 hk with hk | ⟨-, hv⟩
      · have hs := (readAnchor?_source hk).1
        rw [hs] at hk ⊢
        exact .anchor hk ih
      · obtain ⟨d, u, hd, hu, rfl, hs, hr⟩ := readValue?_eq_some.1 hv
        rw [hs]
        exact .value hd hu hr ih
    · rw [Option.map_eq_some_iff] at hx
      obtain ⟨⟨u, q⟩, hu, hx⟩ := hx
      cases hx
      obtain ⟨hurl, hs, -⟩ := readUrl?_eq_some.1 hu
      rw [hs]
      exact .url hurl ih
  | case3 c s hn ih => exact .char hn ih

/-- The characters with which the text of a spot starts, a link being one. -/
def startsSpot (c : Char) : Bool := c = '<' || leadsValue c

theorem startsSpot_eq_false {c : Char} :
    startsSpot c = false ↔ c ≠ '<' ∧ leadsValue c = false := by
  simp [startsSpot]

/-- No spot starts with a character of a class that those are not in. -/
theorem startsSpot_of_class {p : Char → Bool}
    (hp : p '<' = false ∧ p '"' = false ∧ p '=' = false) {c : Char} (hc : p c = true) :
    startsSpot c = false := by
  obtain ⟨hlt, hquote, heq⟩ := hp
  have hne : ∀ d, p d = false → c ≠ d := by
    rintro d hd rfl
    rw [hc] at hd
    cases hd
  simp [startsSpot, leadsValue, hne _ hlt, hne _ hquote, hne _ heq]

theorem startsSpot_of_map {w m : Text} (hw : ∀ c ∈ w, startsSpot c = false)
    (hm : m.map foldCase = w) : ∀ c ∈ m, startsSpot c = false := by
  intro c hc
  have hfold : startsSpot (foldCase c) = false := hw _ (hm ▸ List.mem_map_of_mem hc)
  exact startsSpot_of_class (p := fun d => !startsSpot (foldCase d)) (by decide) (by simp [hfold])

namespace Links

variable {s t w : Text}

/-- A character of the linked text that is not the start of an anchor stands in the text too. -/
theorem exists_of_cons {c : Char} (hc : c ≠ '<') (h : Links s (c :: t)) :
    ∃ r, s = c :: r ∧ (leadsValue c = true ∨ Links r t) := by
  generalize ht : c :: t = t' at h
  cases h with
  | nil => cases ht
  | url hu h =>
    rw [anchor_eq, List.cons_append, List.cons.injEq] at ht
    exact absurd ht.1 hc
  | anchor hk h =>
    obtain ⟨tag, body, closing, -, -, -, rfl, -⟩ := readAnchor?_eq_some.1 hk
    rw [List.cons_append, List.cons.injEq] at ht
    exact absurd ht.1 hc
  | value hd hu hs h =>
    cases ht
    exact ⟨_, rfl, .inl hd⟩
  | char hn h =>
    cases ht
    exact ⟨_, rfl, .inr h⟩

theorem endsUrl (hs : EndsUrl s) (h : Links s t) : EndsUrl t := by
  cases t with
  | nil => exact endsUrl_nil
  | cons c t =>
    by_cases hc : c = '<'
    · rw [endsUrl_cons, hc]
      decide
    · obtain ⟨r, rfl, -⟩ := exists_of_cons hc h
      exact endsUrl_cons.2 (endsUrl_cons.1 hs)

/-- A word that no spot starts in stands in both texts at once. -/
theorem exists_of_append (hw : ∀ c ∈ w, startsSpot c = false)
    (h : Links s (w ++ t)) : ∃ r, s = w ++ r ∧ Links r t := by
  induction w generalizing s with
  | nil => exact ⟨s, rfl, h⟩
  | cons c w ih =>
    obtain ⟨hlt, hlead⟩ := startsSpot_eq_false.1 (hw c List.mem_cons_self)
    obtain ⟨q, rfl, hq⟩ := exists_of_cons hlt h
    rcases hq with hc | hq
    · rw [hlead] at hc
      cases hc
    · obtain ⟨r, rfl, hr⟩ := ih (fun d hd => hw d (List.mem_cons_of_mem c hd)) hq
      exact ⟨r, rfl, hr⟩

/-- No URL comes about where none was. -/
theorem readUrl?_eq_none (hs : readUrl? s = none) (h : Links s t) : readUrl? t = none := by
  rw [Option.eq_none_iff_forall_ne_some]
  rintro ⟨u, q⟩ hread
  obtain ⟨hu, rfl, -⟩ := readUrl?_eq_some.1 hread
  obtain ⟨scheme, rest, rfl, hscheme, hrest⟩ := hu.scheme
  have hstarts : ∀ c ∈ scheme, startsSpot c = false := by
    rcases hscheme with hw | hw
    · exact startsSpot_of_map (by decide) hw
    · exact startsSpot_of_map (by decide) hw
  rw [List.append_assoc] at h
  obtain ⟨r, rfl, hr⟩ := exists_of_append hstarts h
  cases rest with
  | nil => exact hrest rfl
  | cons c rest =>
    have hc : c ≠ '<' := hu.ne (by decide) (by simp)
    obtain ⟨r, rfl, -⟩ := exists_of_cons hc hr
    exact readUrl?_ne_none hscheme (hu.chars c (by simp)) r hs

theorem readValue?_eq_none {c : Char} (hs : readValue? (c :: s) = none) (h : Links s t) :
    readValue? (c :: t) = none := by
  cases hlead : leadsValue c with
  | false => exact readValue?_of_not_leads hlead t
  | true =>
    rw [readValue?_cons hlead, Option.map_eq_none_iff] at hs ⊢
    exact readUrl?_eq_none hs h

/-! ## Anchors that only the linked text has -/

/-- No end of an anchor comes about where none was. -/
theorem readClose?_eq_none {c : Char} (hs : readWord? foldCase "</a>".toList (c :: s) = none)
    (h : Links s t) : readWord? foldCase "</a>".toList (c :: t) = none := by
  rw [Option.eq_none_iff_forall_ne_some]
  rintro ⟨m, q⟩ hread
  obtain ⟨hm, happ⟩ := readWord?_eq_some.1 hread
  cases m with
  | nil => cases hm
  | cons d m =>
    rw [List.cons_append, List.cons.injEq] at happ
    obtain ⟨rfl, rfl⟩ := happ
    have hend : "</a>".toList = '<' :: "/a>".toList := by simp
    have hstarts : ∀ d ∈ m, startsSpot d = false :=
      startsSpot_of_map (by decide) (List.tail_eq_of_cons_eq (hm.trans hend))
    obtain ⟨r, rfl, -⟩ := exists_of_append hstarts h
    rw [← List.cons_append, readWord?_eq_some.2 ⟨hm, rfl⟩] at hs
    cases hs

/-- Where the text has no end of an anchor, only that of a link can be the nearest one. -/
theorem exists_of_nearest {b m q : Text} (h : Links s t)
    (hs : nearest? foldCase "</a>".toList s = none)
    (ht : nearest? foldCase "</a>".toList t = some (b, m, q)) :
    ∃ r, r.length ≤ s.length ∧ Links r q := by
  induction h generalizing b with
  | nil => cases ht
  | @url u s t hu h =>
    rw [hu.nearest?_anchor] at ht
    cases ht
    exact ⟨s, by simp, h⟩
  | @anchor k s t hk h =>
    -- an anchor has an end itself
    obtain ⟨tag, body, closing, -, -, hn, -, hks⟩ := readAnchor?_eq_some.1 hk
    have hne : nearest? foldCase "</a>".toList (body ++ (closing ++ s)) ≠ none := by
      rw [hn]
      exact Option.some_ne_none _
    have happ : k ++ s = '<' :: (tag ++ ['>']) ++ (body ++ (closing ++ s)) := by simp [hks]
    rw [happ] at hs
    exact absurd hs (nearest?_append_ne_none hne)
  | @value c u s t hc hu hr h ih =>
    have hskip : Skips (readWord? foldCase "</a>".toList) (c :: u) :=
      skips_of_head_ne fun d hd => foldCase_lt (hu.ne_of_mem_value hc d hd).1
    rw [← List.cons_append, nearest?_append_of_skips hskip, Option.map_eq_none_iff] at hs
    rw [← List.cons_append, nearest?_append_of_skips hskip, Option.map_eq_some_iff] at ht
    obtain ⟨⟨b', m', q'⟩, ht, heq⟩ := ht
    cases heq
    obtain ⟨r, hlen, hr⟩ := ih hs ht
    exact ⟨r, by simp only [List.length_cons, List.length_append]; omega, hr⟩
  | @char c s t hn h ih =>
    rw [nearest?] at hs
    split at hs
    · cases hs
    · rename_i hword
      rw [nearest?, readClose?_eq_none hword h] at ht
      simp only [Option.map_eq_some_iff] at ht
      obtain ⟨⟨b', m', q'⟩, ht, heq⟩ := ht
      cases heq
      obtain ⟨r, hlen, hr⟩ := ih (Option.map_eq_none_iff.1 hs) ht
      exact ⟨r, Nat.le_succ_of_le hlen, hr⟩

/-- Where no anchor goes on behind the first tag of the text, only a link can make one. -/
theorem exists_of_tag {tag r b m q : Text} (h : Links s (tag ++ '>' :: r)) (htag : '>' ∉ tag)
    (hs : ∀ x y, '>' ∉ x → s = x ++ '>' :: y → nearest? foldCase "</a>".toList y = none)
    (hr : nearest? foldCase "</a>".toList r = some (b, m, q)) :
    ∃ p, p.length ≤ s.length ∧ Links p q := by
  generalize ht : tag ++ '>' :: r = t at h
  induction h generalizing tag with
  | nil => simp at ht
  | @url u s t hu h =>
    -- the first tag ends with the opening tag of the link
    rw [anchor_append, ← List.cons_append] at ht
    have hgt : '>' ∉ '<' :: linkTag u :=
      List.not_mem_cons_of_ne_of_not_mem (by decide) hu.gt_not_mem_linkTag
    obtain ⟨-, rfl⟩ := append_cons_inj htag hgt ht
    rw [hu.nearest?_close] at hr
    cases hr
    exact ⟨s, by simp, h⟩
  | @anchor k s t hk h =>
    -- behind the first tag of the text there is an end
    obtain ⟨x, body, closing, hx, -, hn, -, hks⟩ := readAnchor?_eq_some.1 hk
    rw [hs ('<' :: x) _ (List.not_mem_cons_of_ne_of_not_mem (by decide) hx) hks] at hn
    cases hn
  | @value c u s t hc hu hend h ih =>
    have hgt : '>' ∉ c :: u := fun hmem => (hu.ne_of_mem_value hc _ hmem).2 rfl
    obtain ⟨y, rfl, rfl⟩ := exists_of_append_eq_cons hgt ht.symm
    obtain ⟨p, hlen, hp⟩ := ih (fun hy => htag (List.mem_append_right _ hy))
      (fun x z hx hz => hs (c :: u ++ x) z
        (fun hmem => (List.mem_append.1 hmem).elim hgt hx) (by simp [hz])) rfl
    exact ⟨p, by simp only [List.length_cons, List.length_append]; omega, hp⟩
  | @char c s t hn h ih =>
    cases tag with
    | nil =>
      cases ht
      obtain ⟨p, hlen, hp⟩ := exists_of_nearest h (hs [] s List.not_mem_nil rfl) hr
      exact ⟨p, Nat.le_succ_of_le hlen, hp⟩
    | cons d tag =>
      cases ht
      have hc : '>' ≠ c := fun heq => htag (heq ▸ List.mem_cons_self)
      obtain ⟨p, hlen, hp⟩ := ih (fun hm => htag (List.mem_cons_of_mem c hm))
        (fun x z hx hz => hs (c :: x) z (List.not_mem_cons_of_ne_of_not_mem hc hx) (by simp [hz]))
        rfl
      exact ⟨p, Nat.le_succ_of_le hlen, hp⟩

/-- The same tag opens an anchor in both texts. -/
theorem isAnchorTag_of_tag {tag r x y : Text} (h : Links (x ++ '>' :: y) (tag ++ '>' :: r))
    (htag : isAnchorTag tag = true) (hgt : '>' ∉ tag) : isAnchorTag x = true := by
  rcases tag with _ | ⟨c, _ | ⟨d, tag⟩⟩
  · cases htag
  · cases htag
  · obtain ⟨hc, hd⟩ := Bool.and_eq_true_iff.1 htag
    have hstarts : ∀ e ∈ [c, d], startsSpot e = false := by
      have hc : startsSpot c = false :=
        startsSpot_of_map (w := ['a']) (by decide) (by simpa using hc) c (List.mem_singleton.2 rfl)
      simp [hc, startsSpot_of_class (by decide) hd]
    obtain ⟨q, hq, -⟩ := exists_of_append (w := [c, d]) hstarts h
    have hmem : '>' ∉ [c, d] := fun hm => hgt (List.mem_of_mem_take (i := 2) hm)
    obtain ⟨z, rfl, -⟩ := exists_of_append_eq_cons hmem hq.symm
    exact htag

/-- Behind an anchor that only the linked text has stands a linked text. -/
theorem exists_of_readAnchor? {c : Char} {k q : Text} (hs : readAnchor? (c :: s) = none)
    (h : Links s t) (ht : readAnchor? (c :: t) = some (k, q)) :
    ∃ p, p.length ≤ s.length ∧ Links p q := by
  obtain ⟨tag, body, closing, htag, hopen, hclose, -, heq⟩ := readAnchor?_eq_some.1 ht
  cases heq
  refine exists_of_tag h htag (fun x y hx hxy => ?_) hclose
  rw [hxy] at h hs
  rw [readAnchor?_tag hx, if_pos (isAnchorTag_of_tag h hopen htag), Option.map_eq_none_iff] at hs
  exact hs

/-- In a linked text no URL is to be linked. -/
theorem not_found (h : Links s t) (u : Text) : .found (.url u) ∉ pattern.pieces t := by
  induction hn : s.length using Nat.strongRecOn generalizing s t with
  | ind n ih =>
    subst hn
    cases h with
    | nil => simp
    | @url v s t hv h =>
      rw [Pattern.pieces_of_read (read?_of_anchor (hv.readAnchor?_anchor t))]
      have hlen : s.length < (v ++ s).length := by
        have := List.length_pos_iff.2 hv.ne_nil
        rw [List.length_append]
        omega
      simpa using ih s.length hlen h rfl
    | @anchor k s t hk h =>
      rw [Pattern.pieces_of_read (read?_of_anchor (readAnchor?_congr hk t))]
      have hlen : s.length < (k ++ s).length := by
        have := List.length_pos_iff.2 (readAnchor?_source hk).2
        rw [List.length_append]
        omega
      simpa using ih s.length hlen h rfl
    | @value c v s t hc hv hs h =>
      have ha : readAnchor? (c :: (v ++ t)) = none :=
        readAnchor?_of_ne (hv.ne_of_mem_value hc c List.mem_cons_self).1 _
      have hread : readValue? (c :: (v ++ t)) = some (c :: v, t) :=
        readValue?_eq_some.2 ⟨c, v, hc, hv, rfl, rfl, h.endsUrl hs⟩
      have hlen : s.length < (c :: (v ++ s)).length := by
        rw [List.length_cons, List.length_append]
        omega
      rw [Pattern.pieces_of_read (read?_of_value ha hread)]
      simpa using ih s.length hlen h rfl
    | @char c s t hc h =>
      obtain ⟨ha, hv, hu⟩ := read?_eq_none.1 hc
      cases ht : readAnchor? (c :: t) with
      | none =>
        have hread : pattern.read? (c :: t) = none :=
          read?_eq_none.2 ⟨ht, readValue?_eq_none hv h, readUrl?_eq_none hu (.char hc h)⟩
        rw [Pattern.pieces_of_not_read hread]
        simpa using ih s.length (Nat.lt_succ_self _) h rfl
      | some x =>
        obtain ⟨p, hlen, hp⟩ := exists_of_readAnchor? ha h ht
        rw [Pattern.pieces_of_read (read?_of_anchor ht)]
        simpa using ih p.length (Nat.lt_succ_of_le hlen) hp rfl

end Links

/-- Linking again changes nothing, and the second pass finds no URL to link: each is part of an
anchor or the value of an attribute. -/
theorem autolink_autolink (s : Text) :
    autolink (autolink s) = autolink s ∧
      ∀ u, .found (.url u) ∉ pattern.pieces (autolink s) := by
  have hnone : ∀ u, .found (.url u) ∉ pattern.pieces (autolink s) := (links_autolink s).not_found
  exact ⟨autolink_eq_self_iff.2 hnone, hnone⟩

/-- The end of the first link is that of the anchor that was open. -/
example : readAnchor? (autolink "<a b>http://c http://d".toList) =
    some ("<a b>".toList ++ Html.anchor "http://c".toList,
      ' ' :: Html.anchor "http://d".toList) := by
  decide +kernel

end BBCode.Autolink
