import BBCode.Proofs.Guard.Bodies

/-!
# BBCode.Proofs.Guard.Replace

What a code region holds does not interfere with the rest of a document. Two documents that are
the same but for what stands in their code regions give pages that are the same but for what their
code blocks show, and they leave the same widget flags. Replacing the contents of one region by a
text that does not close it is such a change.

* `text_protect_replace`: the protected text does not tell what the region held.
* `code_noninterference`: the statement about pages.
-/

namespace BBCode

namespace Guarded

/-- The document `before ++ body ++ after` has a code region that holds `body` and ends at the
nearest closing tag. -/
def IsContents (before body after : Text) : Prop :=
  ∃ ps r qs, tag.pattern.pieces (strip (before ++ body ++ after)) = ps ++ .found r :: qs ∧
    strip before = ps.flatMap (Piece.fill Region.source) ++ r.opening ∧ strip body = r.body ∧
    strip after = r.closing ++ qs.flatMap (Piece.fill Region.source)

theorem strip_append (s t : Text) : strip (s ++ t) = strip s ++ strip t :=
  List.filter_append ..

theorem readOpening?_tag (s : Text) :
    tag.readOpening? s = (readWord? foldCase "[code]".toList s).map fun x => (x.1, [], x.2) := rfl

theorem closer_tag : tag.closer = "[/code]".toList := rfl

/-- A region that is read has a spelled opening tag, and its closing tag is the nearest one. -/
theorem readPair?_tag {s r : Text} {x : Region} (h : tag.readPair? s = some (x, r)) :
    x.param = [] ∧ x.opening.map foldCase = "[code]".toList ∧
      nearest? foldCase "[/code]".toList (x.body ++ (x.closing ++ r)) =
        some (x.body, x.closing, r) := by
  rw [TagPair.readPair?, readOpening?_tag] at h
  cases hw : readWord? foldCase "[code]".toList s with
  | none =>
    rw [hw] at h
    cases h
  | some q =>
    simp only [hw, Option.map_some, Option.map_eq_some_iff, Prod.mk.injEq, closer_tag] at h
    obtain ⟨y, hy, rfl, rfl⟩ := h
    refine ⟨rfl, (readWord?_eq_some.1 hw).1, ?_⟩
    obtain ⟨hs, -⟩ := nearest?_append hy
    rw [hs, List.append_assoc] at hy
    exact hy

theorem readPair?_of_nearest {o b c r : Text} (ho : o.map foldCase = "[code]".toList)
    (hb : nearest? foldCase "[/code]".toList (b ++ (c ++ r)) = some (b, c, r)) :
    tag.readPair? (o ++ (b ++ (c ++ r))) = some (⟨o, [], b, c⟩, r) := by
  rw [TagPair.readPair?, readOpening?_tag, readWord?_eq_some.2 ⟨ho, rfl⟩]
  simp only [Option.map_some, closer_tag, hb]

theorem readPair?_append_congr {x : Region} {r : Text}
    (h : tag.readPair? (x.source ++ r) = some (x, r)) (r' : Text) :
    tag.readPair? (x.source ++ r') = some (x, r') := by
  obtain ⟨hparam, hopen, hnear⟩ := readPair?_tag h
  have hx : x = ⟨x.opening, [], x.body, x.closing⟩ := by rw [← hparam]
  have hread := readPair?_of_nearest hopen (nearest?_append_congr hnear r')
  rw [← hx] at hread
  rwa [Region.source, List.append_assoc, List.append_assoc]

/-- Whether a region starts in front of an opening tag that is closed does not depend on what
follows that tag. -/
theorem readPair?_append_opening {s o y : Text} (ho : o.map foldCase = "[code]".toList)
    (hy : nearest? foldCase "[/code]".toList y ≠ none) (h : tag.readPair? (s ++ (o ++ y)) = none)
    (y' : Text) : tag.readPair? (s ++ (o ++ y')) = none := by
  have hlen : "[code]".toList.length ≤ (s ++ o).length := by
    rw [← ho, List.length_map, List.length_append]
    omega
  have happ : ∀ z, readWord? foldCase "[code]".toList (s ++ (o ++ z)) =
      (readWord? foldCase "[code]".toList (s ++ o)).map fun q => (q.1, q.2 ++ z) := by
    intro z
    rw [← readWord?_append_of_le hlen, List.append_assoc]
  -- the tag is closed, so no opening tag was read
  have hopen : readWord? foldCase "[code]".toList (s ++ o) = none := by
    cases hw : readWord? foldCase "[code]".toList (s ++ o) with
    | none => rfl
    | some q =>
      rw [TagPair.readPair?, readOpening?_tag, happ, hw] at h
      simp only [Option.map_some, Option.map_eq_none_iff, closer_tag] at h
      exact absurd h (nearest?_append_ne_none hy)
  rw [TagPair.readPair?, readOpening?_tag, happ, hopen]
  rfl

/-- Up to an opening tag that is closed, what is found in a document does not depend on what
follows that tag. -/
theorem pieces_append_opening {ps P : List (Piece Char Region)} {o y y' : Text}
    (ho : o.map foldCase = "[code]".toList)
    (hy : nearest? foldCase "[/code]".toList y ≠ none)
    (h : tag.pattern.pieces (ps.flatMap (Piece.fill Region.source) ++ (o ++ y)) = ps ++ P) :
    tag.pattern.pieces (ps.flatMap (Piece.fill Region.source) ++ (o ++ y')) =
      ps ++ tag.pattern.pieces (o ++ y') := by
  induction ps with
  | nil => rfl
  | cons p ps ih =>
    rw [List.cons_append] at h ⊢
    rw [List.flatMap_cons, List.append_assoc] at h ⊢
    cases p with
    | plain c =>
      obtain ⟨r, hr, hnone, hpieces⟩ := Pattern.pieces_eq_plain_cons.1 h
      obtain rfl := (List.cons.inj hr).2
      have hnone' := readPair?_append_opening
        (s := c :: ps.flatMap (Piece.fill Region.source)) ho hy hnone y'
      exact Pattern.pieces_eq_plain_cons.2 ⟨_, rfl, hnone', ih hpieces⟩
    | found x =>
      obtain ⟨r, hr, hpieces⟩ := Pattern.pieces_eq_found_cons.1 h
      obtain rfl := List.append_cancel_left (TagPair.readPair?_source hr).1
      exact Pattern.pieces_eq_found_cons.2 ⟨_, readPair?_append_congr hr _, ih hpieces⟩

/-- Other contents leave the pieces of a document as they are around their region. -/
theorem pieces_replace {before body after body' : Text} (h : IsContents before body after)
    (hb : nearest? foldCase "[/code]".toList (strip body') = none) :
    ∃ ps r r' qs, tag.pattern.pieces (strip (before ++ body ++ after)) = ps ++ .found r :: qs ∧
      tag.pattern.pieces (strip (before ++ body' ++ after)) = ps ++ .found r' :: qs := by
  obtain ⟨ps, r, qs, hp, hbefore, hbody, hafter⟩ := h
  have hsource : ∀ b, strip (before ++ b ++ after) = ps.flatMap (Piece.fill Region.source) ++
      (r.opening ++ (strip b ++ (r.closing ++ qs.flatMap (Piece.fill Region.source)))) := by
    intro b
    rw [strip_append, strip_append, hbefore, hafter]
    simp only [List.append_assoc]
  -- the region of the document is read behind `ps`
  obtain ⟨t, q, hread⟩ := Pattern.read_of_mem_pieces (p := tag.pattern) (a := r)
    (s := strip (before ++ body ++ after)) (by rw [hp]; simp)
  obtain ⟨-, hopen, hnear⟩ := readPair?_tag hread
  have hclose : r.closing.map foldCase = "[/code]".toList := (nearest?_append hnear).2
  have hnear := nearest?_append_congr hnear (qs.flatMap (Piece.fill Region.source))
  have hend : ∀ z, nearest? foldCase "[/code]".toList
      (z ++ (r.closing ++ qs.flatMap (Piece.fill Region.source))) ≠ none := by
    intro z
    apply nearest?_append_ne_none
    rw [nearest?_of_read (readWord?_eq_some.2 ⟨hclose, rfl⟩)]
    simp
  have hpieces := hp
  rw [hsource, hbody] at hpieces
  have hself : ps ++ .found r :: qs = ps ++ tag.pattern.pieces
      (r.opening ++ (r.body ++ (r.closing ++ qs.flatMap (Piece.fill Region.source)))) :=
    hpieces.symm.trans (pieces_append_opening hopen (hend r.body) hpieces)
  have hrest := List.append_cancel_left hself
  rw [Pattern.pieces_of_read (p := tag.pattern) (readPair?_of_nearest hopen hnear),
    List.cons.injEq] at hrest
  have hstops : Stops foldCase r.closing "/code]".toList := by
    obtain ⟨c, cs, hc, hfold, -⟩ := List.map_eq_cons_iff.1 hclose
    rw [hc]
    exact stops_of_not_mem (by rw [hfold]; decide) cs
  have hbody' := nearest?_append_of_none hb hstops hclose (qs.flatMap (Piece.fill Region.source))
  refine ⟨ps, r, ⟨r.opening, [], strip body', r.closing⟩, qs, hp, ?_⟩
  rw [hsource, pieces_append_opening hopen (hend r.body) hpieces,
    Pattern.pieces_of_read (p := tag.pattern) (readPair?_of_nearest hopen hbody'), ← hrest.2]

theorem fillFrom_placeholder_congr (n : Nat) (ps qs : List (Piece Char Region)) (r r' : Region) :
    Piece.fillFrom (fun k _ => placeholder k) n (ps ++ .found r :: qs) =
      Piece.fillFrom (fun k _ => placeholder k) n (ps ++ .found r' :: qs) := by
  induction ps generalizing n with
  | nil => rfl
  | cons p ps ih =>
    cases p with
    | plain c => simp only [List.cons_append, Piece.fillFrom, ih]
    | found x => simp only [List.cons_append, Piece.fillFrom, ih]

/-- The protected text does not tell what a region holds. -/
theorem text_protect_replace {before body after body' : Text} (h : IsContents before body after)
    (hb : nearest? foldCase "[/code]".toList (strip body') = none) :
    (protect (before ++ body' ++ after) .nearest).text =
      (protect (before ++ body ++ after) .nearest).text := by
  obtain ⟨ps, r, r', qs, hp, hp'⟩ := pieces_replace h hb
  rw [text_protect, text_protect]
  show (Piece.fillFrom _ 0 (tag.pattern.pieces _)).1 = (Piece.fillFrom _ 0 (tag.pattern.pieces _)).1
  rw [hp, hp', fillFrom_placeholder_congr 0 ps qs r' r]

end Guarded

namespace Page

open Guarded

/-- Two documents give pages that differ at most in what their code blocks show, and leave the same
widget flags. -/
def DifferOnlyInCode (o : Options) (widgets : WidgetMap) (s t : Text) : Prop :=
  (render o s widgets).widgets = (render o t widgets).widgets ∧
    ∃ page : CodePage,
      (∀ x ∈ page.rest, x.1 < (protect s o.codeBlocks).blocks.length ∧
        x.1 < (protect t o.codeBlocks).blocks.length) ∧
      (render o s widgets).html = page.fill (shown (protect s o.codeBlocks).blocks) ∧
      (render o t widgets).html = page.fill (shown (protect t o.codeBlocks).blocks)

theorem differOnlyInCode_of_text_eq {o : Options} {s t : Text}
    (h : (protect s o.codeBlocks).text = (protect t o.codeBlocks).text) (widgets : WidgetMap) :
    DifferOnlyInCode o widgets s t := by
  have hlen : (protect s o.codeBlocks).blocks.length = (protect t o.codeBlocks).blocks.length := by
    rw [length_blocks_protect, length_blocks_protect, h]
  refine ⟨by rw [widgets_render, widgets_render, h], ?_⟩
  obtain ⟨page, hpage, hfill⟩ := restore_eq_fill (protect t o.codeBlocks).blocks.length
    (run o (protect t o.codeBlocks).text widgets).1
  refine ⟨page, fun x hx => ⟨hlen ▸ hpage x hx, hpage x hx⟩, ?_, ?_⟩
  · rw [html_render, h, hfill _ hlen fun b hb => unreserved_of_mem_blocks hb]
  · rw [html_render, hfill _ rfl fun b hb => unreserved_of_mem_blocks hb]

/-- Documents with the same protected text, and documents of which one is the other with different
contents in one code region, give pages that are the same around their code blocks. -/
theorem code_noninterference (o : Options) (widgets : WidgetMap) :
    (∀ s t, (protect s o.codeBlocks).text = (protect t o.codeBlocks).text →
      DifferOnlyInCode o widgets s t) ∧
    (o.codeBlocks = .nearest → ∀ before body after body', IsContents before body after →
      nearest? foldCase "[/code]".toList (strip body') = none →
      DifferOnlyInCode o widgets (before ++ body ++ after) (before ++ body' ++ after)) := by
  refine ⟨fun s t h => differOnlyInCode_of_text_eq h widgets, ?_⟩
  intro ho before body after body' hbody hb
  apply differOnlyInCode_of_text_eq
  rw [ho]
  exact (text_protect_replace hbody hb).symm

/-- Tags, a box, a line break and a URL in a code region show as they are written. -/
theorem code_noninterference_markup :
    IsContents "a[code]".toList "x".toList "[/CODE]b".toList ∧
      nearest? foldCase "[/code]".toList
        (strip "[box=t][*]\nhttp://a.b[/box][code]".toList) = none ∧
      DifferOnlyInCode {} .empty ("a[code]".toList ++ "x".toList ++ "[/CODE]b".toList)
        ("a[code]".toList ++ "[box=t][*]\nhttp://a.b[/box][code]".toList ++ "[/CODE]b".toList) := by
  have hstrip : strip ("a[code]".toList ++ "x".toList ++ "[/CODE]b".toList) =
      'a' :: "[code]x[/CODE]b".toList := by decide
  have hplain : tag.pattern.read? ('a' :: "[code]x[/CODE]b".toList) = none := by decide
  have hfound : tag.pattern.read? "[code]x[/CODE]b".toList =
      some (⟨"[code]".toList, [], ['x'], "[/CODE]".toList⟩, ['b']) := by decide
  have hlast : tag.pattern.read? ['b'] = none := by decide
  have hpieces : tag.pattern.pieces (strip ("a[code]".toList ++ "x".toList ++ "[/CODE]b".toList)) =
      [.plain 'a', .found ⟨"[code]".toList, [], ['x'], "[/CODE]".toList⟩, .plain 'b'] := by
    rw [hstrip, Pattern.pieces_of_not_read hplain, Pattern.pieces_of_read hfound,
      Pattern.pieces_of_not_read hlast, Pattern.pieces_nil]
  have hx : IsContents "a[code]".toList "x".toList "[/CODE]b".toList :=
    ⟨[.plain 'a'], ⟨"[code]".toList, [], ['x'], "[/CODE]".toList⟩, [.plain 'b'], hpieces,
      by decide, by decide, by decide⟩
  have hb : nearest? foldCase "[/code]".toList
      (strip "[box=t][*]\nhttp://a.b[/box][code]".toList) = none := by decide
  exact ⟨hx, hb, (code_noninterference {} .empty).2 rfl _ _ _ _ hx hb⟩

end Page

end BBCode
