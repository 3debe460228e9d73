import BBCode.Proofs.Guard.Replace
import BBCode.Proofs.Guard.Whole
import BBCode.Proofs.Text.Occurs

/-!
# BBCode.Proofs.Guard.Exact

Which code regions are lifted out of a document, and what is left of it. The protected text holds
one placeholder for each region, in document order; with the regions back in their places it is the
document again. Nothing that ought to be a region is left, and no region reaches too far.

* `standsAt_lifted`: where placeholders stand in the protected text.
* `exists_of_lifted_eq`: a word that no placeholder overlaps stands in the document too.
* `protect_exact`: the statement about documents.
-/

namespace BBCode

namespace Guarded

/-! ## The protected text -/

/-- What is left of some pieces, the code regions being numbered from `n` on. -/
def lifted (n : Nat) (ps : List (Piece Char Region)) : Text :=
  (Piece.fillFrom (fun k _ => placeholder k) n ps).1

/-- The code regions among some pieces. -/
def regions (ps : List (Piece Char Region)) : List Region :=
  ps.filterMap fun
    | .plain _ => none
    | .found r => some r

/-- Nothing of a placeholder stands between the regions. -/
def Stripped (ps : List (Piece Char Region)) : Prop := ∀ c, .plain c ∈ ps → isReserved c = false

theorem Stripped.tail {p : Piece Char Region} {ps : List (Piece Char Region)}
    (h : Stripped (p :: ps)) : Stripped ps := fun c hc => h c (List.mem_cons_of_mem p hc)

theorem stripped_pieces (m : CodeMatching) (source : Text) :
    Stripped ((pattern m).pieces (strip source)) := fun c hc =>
  unreserved_of_mem_pieces (unreserved_strip source) hc c (by simp [Piece.fill])

@[simp] theorem lifted_nil (n : Nat) : lifted n [] = [] := rfl

@[simp] theorem lifted_plain (n : Nat) (c : Char) (ps : List (Piece Char Region)) :
    lifted n (.plain c :: ps) = c :: lifted n ps := rfl

@[simp] theorem lifted_found (n : Nat) (r : Region) (ps : List (Piece Char Region)) :
    lifted n (.found r :: ps) = placeholder n ++ lifted (n + 1) ps := rfl

theorem lifted_append_plain (n : Nat) (x : Text) (ps : List (Piece Char Region)) :
    lifted n (x.map Piece.plain ++ ps) = x ++ lifted n ps :=
  congrArg Prod.fst (Piece.fillFrom_plain _ n x ps)

theorem contents_eq_map (ps : List (Piece Char Region)) : contents ps = (regions ps).map Region.body := by
  induction ps with
  | nil => rfl
  | cons p ps ih =>
    cases p with
    | plain c => exact ih
    | found r => exact congrArg (r.body :: ·) ih

theorem mem_regions {ps : List (Piece Char Region)} {r : Region} : r ∈ regions ps ↔ .found r ∈ ps := by
  rw [regions, List.mem_filterMap]
  constructor
  · rintro ⟨p, hp, hr⟩
    cases p with
    | plain c => cases hr
    | found x =>
      cases hr
      exact hp
  · exact fun h => ⟨_, h, rfl⟩

/-! ## Where placeholders stand -/

/-- The word `w` stands at place `i` of the text. -/
def StandsAt (s w : Text) (i : Nat) : Prop := w <+: s.drop i

theorem standsAt_cons {c : Char} (hc : isReserved c = false) (s : Text) (k i : Nat) :
    StandsAt (c :: s) (placeholder k) i ↔ ∃ j, i = j + 1 ∧ StandsAt s (placeholder k) j := by
  cases i with
  | zero =>
    refine ⟨fun h => ?_, fun ⟨j, hj, _⟩ => absurd hj (by omega)⟩
    rw [StandsAt, List.drop_zero, placeholder_eq, List.cons_prefix_cons] at h
    exact absurd h.1.symm (ne_start hc)
  | succ i => exact ⟨fun h => ⟨i, rfl, h⟩, fun ⟨j, hj, h⟩ => by rwa [Nat.succ_inj.1 hj]⟩

/-- Within a placeholder none other starts. -/
theorem standsAt_placeholder (n : Nat) (s : Text) (k i : Nat) :
    StandsAt (placeholder n ++ s) (placeholder k) i ↔
      (i = 0 ∧ k = n) ∨ ∃ j, i = (placeholder n).length + j ∧ StandsAt s (placeholder k) j := by
  constructor
  · intro h
    rcases Nat.eq_zero_or_pos i with rfl | hpos
    · obtain ⟨t, ht⟩ := h
      exact .inl ⟨rfl, (placeholder_append_inj ht).1⟩
    · rcases Nat.lt_or_ge i (placeholder n).length with hlt | hge
      · -- the first character of a placeholder stands nowhere else in one
        have hmem : placeholderStart ∈ (placeholder n).drop i := by
          obtain ⟨t, ht⟩ := h
          rw [List.drop_append_of_le_length (Nat.le_of_lt hlt), placeholder_eq k,
            List.drop_eq_getElem_cons hlt, List.cons_append, List.cons_append, List.cons.injEq] at ht
          rw [List.drop_eq_getElem_cons hlt, ← ht.1]
          exact List.mem_cons_self
        obtain ⟨i, rfl⟩ : ∃ j, i = j + 1 := ⟨i - 1, by omega⟩
        rw [placeholder_eq, List.drop_succ_cons] at hmem
        rcases List.mem_append.1 (List.mem_of_mem_drop hmem) with hl | hl
        · exact absurd rfl (ne_start (unreserved_label n _ hl))
        · exact absurd (List.mem_singleton.1 hl) (by decide)
      · refine .inr ⟨i - (placeholder n).length, by omega, ?_⟩
        rw [StandsAt, List.drop_append, List.drop_eq_nil_of_le hge, List.nil_append] at h
        exact h
  · rintro (⟨rfl, rfl⟩ | ⟨j, rfl, h⟩)
    · exact List.prefix_append _ _
    · rw [StandsAt, List.drop_append, List.drop_eq_nil_of_le (Nat.le_add_right _ _), List.nil_append,
        Nat.add_sub_cancel_left]
      exact h

/-- The placeholders of the regions stand at increasing places, each at one, and no others stand
anywhere. -/
theorem standsAt_lifted {ps : List (Piece Char Region)} (h : Stripped ps) (n : Nat) :
    ∃ places : List Nat, places.length = (regions ps).length ∧ places.Pairwise (· < ·) ∧
      ∀ k i, StandsAt (lifted n ps) (placeholder k) i ↔ ∃ j, k = n + j ∧ places[j]? = some i := by
  induction ps generalizing n with
  | nil =>
    refine ⟨[], rfl, .nil, fun k i => ?_⟩
    simp [StandsAt, placeholder_ne_nil]
  | cons p ps ih =>
    cases p with
    | plain c =>
      obtain ⟨places, hlen, hsorted, hplaces⟩ := ih h.tail n
      refine ⟨places.map (· + 1), by rw [List.length_map, hlen]; rfl,
        List.pairwise_map.2 (hsorted.imp fun hij => Nat.succ_lt_succ hij), fun k i => ?_⟩
      rw [lifted_plain, standsAt_cons (h c List.mem_cons_self)]
      simp only [hplaces, List.getElem?_map, Option.map_eq_some_iff]
      constructor
      · rintro ⟨i, rfl, j, rfl, hj⟩
        exact ⟨j, rfl, i, hj, rfl⟩
      · rintro ⟨j, rfl, i, hj, rfl⟩
        exact ⟨i, rfl, j, rfl, hj⟩
    | found r =>
      obtain ⟨places, hlen, hsorted, hplaces⟩ := ih h.tail (n + 1)
      have hpos := List.length_pos_iff.2 (placeholder_ne_nil n)
      refine ⟨0 :: places.map ((placeholder n).length + ·), ?_, ?_, fun k i => ?_⟩
      · rw [List.length_cons, List.length_map, hlen]
        rfl
      · refine List.pairwise_cons.2 ⟨fun i hi => ?_,
          List.pairwise_map.2 (hsorted.imp fun hij => Nat.add_lt_add_left hij _)⟩
        obtain ⟨j, -, rfl⟩ := List.mem_map.1 hi
        omega
      · rw [lifted_found, standsAt_placeholder]
        simp only [hplaces]
        constructor
        · rintro (⟨rfl, rfl⟩ | ⟨i, rfl, j, rfl, hj⟩)
          · exact ⟨0, rfl, rfl⟩
          · exact ⟨j + 1, by omega, by simp [hj]⟩
        · rintro ⟨j, rfl, hj⟩
          cases j with
          | zero => exact .inl ⟨(Option.some.inj hj).symm, rfl⟩
          | succ j =>
            rw [List.getElem?_cons_succ, List.getElem?_map, Option.map_eq_some_iff] at hj
            obtain ⟨i, hi, rfl⟩ := hj
            exact .inr ⟨i, rfl, j, by omega, hi⟩

/-! ## The regions back in their places -/

/-- The text of the region with index `k`. -/
def sourceOf (rs : List Region) (k : Nat) : Text := (rs[k]?.map Region.source).getD []

theorem substitute_lifted {ps : List (Piece Char Region)} (h : Stripped ps) {n N : Nat}
    {f : Nat → Text} (hf : ∀ j r, (regions ps)[j]? = some r → n + j < N ∧ f (n + j) = r.source) :
    (placeholders N).substitute f (lifted n ps) = ps.flatMap (Piece.fill Region.source) := by
  induction ps generalizing n with
  | nil => exact Pattern.substitute_nil _ _
  | cons p ps ih =>
    cases p with
    | plain c =>
      have hc : c ≠ placeholderStart := ne_start (h c List.mem_cons_self)
      rw [lifted_plain, Pattern.substitute_of_not_read (readPlaceholder?_cons hc _), ih h.tail hf]
      rfl
    | found r =>
      obtain ⟨hn, hr⟩ := hf 0 r rfl
      have hread : (placeholders N).read? (placeholder n ++ lifted (n + 1) ps) =
          some (n, lifted (n + 1) ps) := readPlaceholder?_eq_some.2 ⟨hn, rfl⟩
      have hrest := ih h.tail (n := n + 1) fun j x hx => by
        rw [Nat.add_assoc, Nat.add_comm 1 j]
        exact hf (j + 1) x hx
      rw [lifted_found, Pattern.substitute_of_read hread, hrest]
      exact congrArg (· ++ _) hr

/-! ## What is a region -/

/-- The text has an opening tag of a code region with a closing tag somewhere behind it. -/
def HasRegion (s : Text) : Prop :=
  ∃ a o b c d, s = a ++ (o ++ (b ++ (c ++ d))) ∧ o.map foldCase = "[code]".toList ∧
    c.map foldCase = "[/code]".toList

variable {m : CodeMatching} {s : Text}

theorem readGreedy?_tag {r : Text} {x : Region} (h : readGreedy? s = some (x, r)) :
    x.opening.map foldCase = "[code]".toList ∧
      farthest? foldCase "[/code]".toList (x.body ++ (x.closing ++ r)) =
        some (x.body, x.closing, r) := by
  rw [readGreedy?, readOpening?_tag] at h
  cases hw : readWord? foldCase "[code]".toList s with
  | none =>
    rw [hw] at h
    cases h
  | some q =>
    simp only [hw, Option.map_some, Option.map_eq_some_iff, Prod.mk.injEq, closer_tag] at h
    obtain ⟨y, hy, rfl, rfl⟩ := h
    refine ⟨(readWord?_eq_some.1 hw).1, ?_⟩
    obtain ⟨hs, -⟩ := farthest?_append hy
    rw [hs, List.append_assoc] at hy
    exact hy

/-- A region has spelled tags. -/
theorem tags_of_mem_regions {r : Region} (h : r ∈ regions ((pattern m).pieces s)) :
    r.opening.map foldCase = "[code]".toList ∧ r.closing.map foldCase = "[/code]".toList := by
  obtain ⟨t, q, hread⟩ := Pattern.read_of_mem_pieces (mem_regions.1 h)
  cases m with
  | nearest =>
    obtain ⟨-, ho, hn⟩ := readPair?_tag hread
    exact ⟨ho, (nearest?_append hn).2⟩
  | greedy =>
    obtain ⟨ho, hf⟩ := readGreedy?_tag hread
    exact ⟨ho, (farthest?_append hf).2⟩

/-- An opening tag with a closing tag behind it is read as a region. -/
theorem read?_ne_none {o y : Text} (ho : o.map foldCase = "[code]".toList)
    (hy : "[/code]".toList <:+: y.map foldCase) : (pattern m).read? (o ++ y) ≠ none := by
  have hopen : tag.readOpening? (o ++ y) = some (o, [], y) := by
    rw [readOpening?_tag, readWord?_eq_some.2 ⟨ho, rfl⟩]
    rfl
  cases m with
  | nearest =>
    show tag.readPair? (o ++ y) ≠ none
    simpa [TagPair.readPair?, hopen, closer_tag] using nearest?_ne_none_of_isInfix hy
  | greedy =>
    show readGreedy? (o ++ y) ≠ none
    simpa [readGreedy?, hopen, closer_tag] using farthest?_ne_none_of_isInfix hy

/-- Behind some of its pieces a text has the others. -/
theorem exists_of_pieces_eq {ps qs : List (Piece Char Region)} (h : (pattern m).pieces s = ps ++ qs) :
    ∃ t, s = ps.flatMap (Piece.fill Region.source) ++ t ∧ (pattern m).pieces t = qs := by
  induction ps generalizing s with
  | nil => exact ⟨s, rfl, h⟩
  | cons p ps ih =>
    cases p with
    | plain c =>
      obtain ⟨s, rfl, -, h⟩ := Pattern.pieces_eq_plain_cons.1 h
      obtain ⟨t, rfl, ht⟩ := ih h
      exact ⟨t, rfl, ht⟩
    | found x =>
      obtain ⟨r, hr, h⟩ := Pattern.pieces_eq_found_cons.1 h
      obtain ⟨t, hx, ht⟩ := ih h
      refine ⟨t, ?_, ht⟩
      rw [List.flatMap_cons, List.append_assoc, ← hx]
      exact read?_source (m := m) hr

/-- No closing tag stands behind an opening tag that was left. -/
theorem not_infix_of_pieces_eq {o : Text} {ps qs : List (Piece Char Region)}
    (ho : o.map foldCase = "[code]".toList)
    (h : (pattern m).pieces s = ps ++ (o.map Piece.plain ++ qs)) :
    ¬ "[/code]".toList <:+: (qs.flatMap (Piece.fill Region.source)).map foldCase := by
  obtain ⟨t, -, ht⟩ := exists_of_pieces_eq h
  obtain ⟨y, rfl, hy⟩ := exists_of_pieces_eq ht
  rw [flatMap_fill_plain] at ht
  rw [← hy, flatMap_source_pieces]
  intro hclose
  cases hr : (pattern m).read? (o ++ y) with
  | none => exact read?_ne_none ho hclose hr
  | some x =>
    -- the tag would be the start of a region
    rw [Pattern.pieces_of_read (a := x.1) (r := x.2) hr] at ht
    cases o with
    | nil => cases ho
    | cons c o => cases ht

/-- Without regions all of a text is left. -/
theorem pieces_of_regions_eq_nil (h : regions ((pattern m).pieces s) = []) :
    (pattern m).pieces s = s.map .plain := by
  fun_induction Pattern.pieces (pattern m) s with
  | case1 => rfl
  | case2 c s a r hr ih => cases h
  | case3 c s hn ih => rw [ih h, List.map_cons]

theorem regions_eq_nil_iff : regions ((pattern m).pieces s) = [] ↔ ¬ HasRegion s := by
  constructor
  · rintro h ⟨a, o, b, c, d, rfl, ho, hc⟩
    have hpieces := pieces_of_regions_eq_nil h
    rw [List.map_append, List.map_append] at hpieces
    refine not_infix_of_pieces_eq ho hpieces ?_
    rw [flatMap_fill_plain]
    exact infix_map_iff.2 ⟨b, c, d, rfl, hc⟩
  · intro h
    cases hr : regions ((pattern m).pieces s) with
    | nil => rfl
    | cons r rs =>
      have hmem : r ∈ regions ((pattern m).pieces s) := by rw [hr]; exact List.mem_cons_self
      obtain ⟨ps, qs, hpieces⟩ := List.append_of_mem (mem_regions.1 hmem)
      obtain ⟨ho, hc⟩ := tags_of_mem_regions hmem
      have hs := flatMap_source_pieces m s
      rw [hpieces, List.flatMap_append, List.flatMap_cons] at hs
      simp only [Piece.fill, Region.source, List.append_assoc] at hs
      exact absurd ⟨_, r.opening, r.body, r.closing, _, hs.symm, ho, hc⟩ h

/-! ## What is left -/

/-- Characters in front of the protected text that are none of placeholders are left over. -/
theorem eq_plain_of_lifted_eq {n : Nat} {ps : List (Piece Char Region)} {x y : Text}
    (hx : Unreserved x) (h : lifted n ps = x ++ y) :
    ∃ qs, ps = x.map .plain ++ qs ∧ lifted n qs = y := by
  induction x generalizing ps with
  | nil => exact ⟨ps, rfl, h⟩
  | cons c x ih =>
    cases ps with
    | nil => cases h
    | cons p ps =>
      cases p with
      | plain d =>
        rw [lifted_plain, List.cons_append, List.cons.injEq] at h
        obtain ⟨rfl, h⟩ := h
        obtain ⟨qs, rfl, hqs⟩ := ih (fun e he => hx e (List.mem_cons_of_mem d he)) h
        exact ⟨qs, rfl, hqs⟩
      | found r =>
        rw [lifted_found, placeholder_eq, List.cons_append, List.cons_append, List.cons.injEq] at h
        exact absurd h.1.symm (ne_start (hx c List.mem_cons_self))

/-- A word that no placeholder overlaps is left over from the document, wherever it stands in the
protected text. -/
theorem exists_of_lifted_eq {f : Char → Char} {w : Text} (hw : Apart f w) {n : Nat}
    {ps : List (Piece Char Region)} {a x y : Text} (hx : x.map f = w)
    (h : lifted n ps = a ++ (x ++ y)) :
    ∃ qs k rs, ps = qs ++ (x.map .plain ++ rs) ∧ lifted k rs = y := by
  induction ps generalizing n a with
  | nil =>
    obtain ⟨p, v, rfl, -⟩ := hw.head
    obtain ⟨-, hxy⟩ := List.append_eq_nil_iff.1 h.symm
    rw [(List.append_eq_nil_iff.1 hxy).1] at hx
    cases hx
  | cons p ps ih =>
    cases a with
    | nil =>
      obtain ⟨rs, hrs, hy⟩ := eq_plain_of_lifted_eq (hw.unreserved_of_map hx) h
      exact ⟨[], n, rs, hrs, hy⟩
    | cons e a =>
      cases p with
      | plain d =>
        rw [lifted_plain, List.cons_append, List.cons.injEq] at h
        obtain ⟨qs, k, rs, rfl, hy⟩ := ih h.2
        exact ⟨.plain d :: qs, k, rs, rfl, hy⟩
      | found r =>
        rw [lifted_found] at h
        rcases List.append_eq_append_iff.1 h with ⟨b, -, hb⟩ | ⟨b, hb, hxy⟩
        · obtain ⟨qs, k, rs, rfl, hy⟩ := ih hb
          exact ⟨.found r :: qs, k, rs, rfl, hy⟩
        · cases b with
          | nil =>
            obtain ⟨qs, k, rs, rfl, hy⟩ := ih (a := []) hxy.symm
            exact ⟨.found r :: qs, k, rs, rfl, hy⟩
          | cons c b =>
            -- the word would start in the placeholder
            obtain ⟨p, v, rfl, hp⟩ := hw.head
            cases x with
            | nil => cases hx
            | cons d x =>
              rw [List.cons_append, List.cons_append, List.cons.injEq] at hxy
              have hd : d ∈ labelChars := mem_labelChars_of_mem_placeholder (k := n) (by
                rw [hb, hxy.1]
                simp)
              exact absurd (List.cons.inj hx).1 (hp d hd)

theorem apart_opening : Apart foldCase "[code]".toList := .of_foldCase (by decide) (by decide)

theorem apart_closing : Apart foldCase "[/code]".toList := .of_foldCase (by decide) (by decide)

theorem not_hasRegion_lifted (n : Nat) : ¬ HasRegion (lifted n ((pattern m).pieces s)) := by
  rintro ⟨a, o, b, c, d, h, ho, hc⟩
  obtain ⟨ps, k, qs, hpieces, hq⟩ := exists_of_lifted_eq apart_opening ho h
  obtain ⟨ps', -, qs', rfl, -⟩ := exists_of_lifted_eq apart_closing hc hq
  refine not_infix_of_pieces_eq ho hpieces ?_
  rw [List.flatMap_append, List.flatMap_append, flatMap_fill_plain]
  exact infix_map_iff.2 ⟨_, c, _, rfl, hc⟩

theorem exists_of_regions_eq_cons {ps : List (Piece Char Region)} {r : Region} {rs : List Region}
    (h : regions ps = r :: rs) : ∃ (x : Text) (qs : List (Piece Char Region)),
      ps = x.map .plain ++ .found r :: qs ∧ regions qs = rs := by
  induction ps with
  | nil => cases h
  | cons p ps ih =>
    cases p with
    | plain c =>
      obtain ⟨x, qs, rfl, hqs⟩ := ih h
      exact ⟨c :: x, qs, rfl, hqs⟩
    | found r' =>
      obtain ⟨rfl, hqs⟩ := List.cons.inj h
      exact ⟨[], ps, rfl, hqs⟩

/-- A region that ends at the last closing tag is the only one: no opening tag is left in front of
it and no closing tag behind it. -/
theorem pieces_greedy {r : Region} {rs : List Region}
    (h : regions ((pattern .greedy).pieces s) = r :: rs) :
    rs = [] ∧ ∃ x y : Text,
      (pattern .greedy).pieces s = x.map .plain ++ .found r :: y.map .plain ∧
      ¬ "[code]".toList <:+: x.map foldCase ∧ ¬ "[/code]".toList <:+: y.map foldCase := by
  obtain ⟨x, qs, hpieces, hqs⟩ := exists_of_regions_eq_cons h
  obtain ⟨t, -, ht⟩ := exists_of_pieces_eq hpieces
  obtain ⟨y, hread, hy⟩ := Pattern.pieces_eq_found_cons.1 ht
  have hclose := not_infix_of_farthest? (by decide) (readGreedy?_tag hread).2
  have hnone : regions ((pattern .greedy).pieces y) = [] := by
    refine regions_eq_nil_iff.2 ?_
    rintro ⟨a, o, b, c, d, rfl, -, hc⟩
    exact hclose (infix_map_iff.2 ⟨a ++ (o ++ b), c, d, by simp, hc⟩)
  rw [hy, hqs] at hnone
  rw [pieces_of_regions_eq_nil (by rw [hy, hqs, hnone])] at hy
  refine ⟨hnone, x, y, by rw [hpieces, ← hy], fun hopen => ?_, hclose⟩
  obtain ⟨a, o, b, rfl, ho⟩ := infix_map_iff.1 hopen
  have hc : r.closing.map foldCase = "[/code]".toList :=
    (tags_of_mem_regions (by rw [h]; exact List.mem_cons_self)).2
  rw [List.map_append, List.map_append, List.append_assoc, List.append_assoc] at hpieces
  refine not_infix_of_pieces_eq ho hpieces (infix_map_iff.2 ?_)
  refine ⟨b ++ (r.opening ++ r.body), r.closing, qs.flatMap (Piece.fill Region.source), ?_, hc⟩
  rw [List.flatMap_append, flatMap_fill_plain, List.flatMap_cons]
  simp only [Piece.fill, Region.source, List.append_assoc]

/-! ## Documents -/

/-- Nothing is left that the way of matching makes a region, and no region holds what it must not. -/
def Complete : CodeMatching → Guarded → Prop
  | .nearest, g =>
    (∀ b ∈ g.blocks, ¬ "[/code]".toList <:+: b.map foldCase) ∧ ¬ HasRegion g.text
  | .greedy, g =>
    g.blocks.length ≤ 1 ∧ ∀ before after, g.text = before ++ (placeholder 0 ++ after) →
      ¬ "[code]".toList <:+: before.map foldCase ∧ ¬ "[/code]".toList <:+: after.map foldCase

theorem blocks_protect (source : Text) (m : CodeMatching) :
    (protect source m).blocks = (regions ((pattern m).pieces (strip source))).map Region.body :=
  contents_eq_map _

/-- Where placeholders stand in the protected text of a document. -/
theorem standsAt_protect (source : Text) (m : CodeMatching) :
    ∃ places : List Nat, places.length = (protect source m).blocks.length ∧
      places.Pairwise (· < ·) ∧
      ∀ k i, StandsAt (protect source m).text (placeholder k) i ↔ places[k]? = some i := by
  obtain ⟨places, hlen, hsorted, hplaces⟩ := standsAt_lifted (stripped_pieces m source) 0
  refine ⟨places, by rw [hlen, blocks_protect, List.length_map], hsorted, fun k i => ?_⟩
  refine (hplaces k i).trans ⟨?_, fun h => ⟨k, (Nat.zero_add k).symm, h⟩⟩
  rintro ⟨j, rfl, hj⟩
  rwa [Nat.zero_add]

theorem not_infix_of_mem_blocks {source b : Text} (h : b ∈ (protect source .nearest).blocks) :
    ¬ "[/code]".toList <:+: b.map foldCase := by
  rw [blocks_protect] at h
  obtain ⟨r, hr, rfl⟩ := List.mem_map.1 h
  obtain ⟨t, q, hread⟩ := Pattern.read_of_mem_pieces (mem_regions.1 hr)
  exact not_infix_of_nearest? (by decide) (readPair?_tag hread).2.2

theorem complete_protect (source : Text) (m : CodeMatching) : Complete m (protect source m) := by
  cases m with
  | nearest => exact ⟨fun b hb => not_infix_of_mem_blocks hb, not_hasRegion_lifted 0⟩
  | greedy =>
    obtain ⟨places, hlen, -, hplaces⟩ := standsAt_protect source .greedy
    have hstands : ∀ before after,
        (protect source .greedy).text = before ++ (placeholder 0 ++ after) →
          places[0]? = some before.length := by
      intro before after h
      refine (hplaces 0 before.length).1 ?_
      rw [h, StandsAt, List.drop_left]
      exact List.prefix_append _ _
    rw [blocks_protect, List.length_map] at hlen
    cases hr : regions ((pattern .greedy).pieces (strip source)) with
    | nil =>
      refine ⟨by simp [blocks_protect, hr], fun before after h => ?_⟩
      -- there is no placeholder
      have hplace := hstands before after h
      rw [hr] at hlen
      rw [List.length_eq_zero_iff.1 hlen] at hplace
      cases hplace
    | cons r rs =>
      obtain ⟨rfl, x, y, hpieces, hopen, hclose⟩ := pieces_greedy hr
      have htext : (protect source .greedy).text = x ++ (placeholder 0 ++ y) := by
        have hy := lifted_append_plain 1 y []
        rw [List.append_nil, lifted_nil, List.append_nil] at hy
        rw [text_protect, ← lifted, hpieces, lifted_append_plain, lifted_found, hy]
      refine ⟨by simp [blocks_protect, hr], fun before after h => ?_⟩
      -- the placeholder stands at one place only
      have hplace := (hstands x y htext).symm.trans (hstands before after h)
      obtain ⟨rfl, hrest⟩ := List.append_inj (htext.symm.trans h) (Option.some.inj hplace)
      rw [← List.append_cancel_left hrest]
      exact ⟨hopen, hclose⟩

/-- Lifting out is exact. In the protected text the placeholders of the regions stand in order, each
at one place; with the regions in their places it is the document. Nothing is lifted out or left
that ought not to be, and something is lifted out exactly if an opening tag has a closing tag
somewhere behind it. -/
theorem protect_exact (source : Text) (m : CodeMatching) :
    (∃ places : List Nat, places.length = (protect source m).blocks.length ∧
      places.Pairwise (· < ·) ∧
      ∀ k i, StandsAt (protect source m).text (placeholder k) i ↔ places[k]? = some i) ∧
    (∃ rs : List Region, rs.map Region.body = (protect source m).blocks ∧
      (∀ r ∈ rs, r.opening.map foldCase = "[code]".toList ∧
        r.closing.map foldCase = "[/code]".toList) ∧
      (placeholders (protect source m).blocks.length).substitute (sourceOf rs)
        (protect source m).text = strip source) ∧
    Complete m (protect source m) ∧
    ((protect source m).blocks = [] ↔ ¬ HasRegion (strip source)) := by
  refine ⟨standsAt_protect source m, ⟨regions ((pattern m).pieces (strip source)),
    (blocks_protect source m).symm, fun r hr => tags_of_mem_regions hr, ?_⟩,
    complete_protect source m, ?_⟩
  · refine (substitute_lifted (stripped_pieces m source) fun j r hj => ?_).trans
      (flatMap_source_pieces m (strip source))
    rw [blocks_protect, List.length_map, Nat.zero_add, sourceOf, hj]
    exact ⟨(List.getElem?_eq_some_iff.1 hj).1, rfl⟩
  · rw [blocks_protect, List.map_eq_nil_iff, regions_eq_nil_iff]

/-- An opening tag that removing a character of placeholders has put together, one that stands in
the region, and a closing tag that is left. -/
example : protect "[c\ue001ode]a[CODE]b[/Code]c[/code]".toList .nearest =
    ⟨placeholder 0 ++ "c[/code]".toList, ["a[CODE]b".toList]⟩ := by cbv

end Guarded

end BBCode
