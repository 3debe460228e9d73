import BBCode.Proofs.Doc.Guard
import BBCode.Proofs.Doc.Links
import BBCode.Proofs.Guard.LineEnds
import BBCode.Proofs.Unclosed.Boxes
import BBCode.Proofs.Unclosed.Items

/-!
# BBCode.Proofs.Unclosed.Page

Documents in which nothing closes. However many brackets, opening tags and parameters such a
document holds, a render turns its line ends into breaks and does nothing else.

* `Unclosing.breakLines`: breaking the lines makes up no tag, no marker and no URL.
* `apply_late`: no later step finds anything.
* `render_unclosed`: the page is the document with its lines broken, without widgets.
-/

namespace BBCode

namespace Text

/-- The text with `<br>` in the place of every line end. A carriage return without a line feed ends
no line. -/
def breakLines : Text → Text
  | '\r' :: '\n' :: s => lineBreak ++ breakLines s
  | '\n' :: s => lineBreak ++ breakLines s
  | c :: s => c :: breakLines s
  | [] => []

theorem breakLines_eq_flatMap (s : Text) :
    breakLines s = (toLf s).flatMap fun c => if c = '\n' then lineBreak else [c] := by
  fun_induction breakLines s with
  | case1 s ih => rw [ih, toLf, List.flatMap_cons, if_pos rfl]
  | case2 s ih => rw [ih, toLf_cons_of_ne (by decide), List.flatMap_cons, if_pos rfl]
  | case3 c s hcrlf hlf ih =>
    have hc : c ≠ '\n' := hlf
    rw [ih, toLf, List.flatMap_cons, if_neg hc]
    · rfl
    · exact hcrlf
  | case4 => rfl

/-! ## What stands in a text with broken lines -/

/-- A character that is in no break comes from the text. -/
theorem eq_append_of_breakLines {s a y : Text} {c : Char} (hc : c ∉ lineBreak)
    (h : breakLines s = a ++ c :: y) : ∃ b r, s = b ++ c :: r ∧ breakLines r = y := by
  -- a break is passed over as a whole
  have hbreak : ∀ {p s a : Text}, (∀ {a : Text}, breakLines s = a ++ c :: y →
      ∃ b r, s = b ++ c :: r ∧ breakLines r = y) → lineBreak ++ breakLines s = a ++ c :: y →
      ∃ b r, p ++ s = b ++ c :: r ∧ breakLines r = y := by
    intro p s a ih h
    rcases List.append_eq_append_iff.1 h with ⟨m, -, hm⟩ | ⟨m, hm, hy⟩
    · obtain ⟨b, r, rfl, hr⟩ := ih hm
      exact ⟨p ++ b, r, by simp, hr⟩
    · cases m with
      | nil =>
        obtain ⟨b, r, rfl, hr⟩ := @ih [] hy.symm
        exact ⟨p ++ b, r, by simp, hr⟩
      | cons d m =>
        rw [List.cons_append, List.cons.injEq] at hy
        rw [hm, hy.1] at hc
        exact absurd (List.mem_append_right _ List.mem_cons_self) hc
  fun_induction breakLines s generalizing a with
  | case1 s ih => exact hbreak (p := ['\r', '\n']) ih h
  | case2 s ih => exact hbreak (p := ['\n']) ih h
  | case3 d s hcrlf hlf ih =>
    cases a with
    | nil =>
      rw [List.nil_append, List.cons.injEq] at h
      exact ⟨[], s, by rw [h.1, List.nil_append], h.2⟩
    | cons e a =>
      rw [List.cons_append, List.cons.injEq] at h
      obtain ⟨b, r, rfl, hr⟩ := ih h.2
      exact ⟨d :: b, r, rfl, hr⟩
  | case4 => simp at h

/-- A word at the front that shares no character with a break comes from the front of the text. -/
theorem eq_append_of_breakLines_front {s w y : Text} (hw : ∀ c ∈ w, c ∉ lineBreak)
    (h : breakLines s = w ++ y) : ∃ r, s = w ++ r ∧ breakLines r = y := by
  induction w generalizing s with
  | nil => exact ⟨s, rfl, h⟩
  | cons c w ih =>
    obtain ⟨hc, hw⟩ := List.forall_mem_cons.1 hw
    have hne : ∀ x, lineBreak ++ x ≠ c :: (w ++ y) := fun x hx => by
      have hlt : '<' = c := (List.cons.inj hx).1
      exact hc (hlt ▸ List.mem_cons_self)
    revert h
    fun_cases breakLines s with
    | case1 s => exact fun h => absurd h (hne _)
    | case2 s => exact fun h => absurd h (hne _)
    | case3 d s hcrlf hlf =>
      intro h
      rw [List.cons_append, List.cons.injEq] at h
      obtain ⟨r, rfl, hr⟩ := ih hw h.2
      exact ⟨r, by rw [h.1, List.cons_append], hr⟩
    | case4 => intro h; cases h

/-- A word that shares no character with a break comes from the text. -/
theorem eq_append_of_breakLines_word {s a y : Text} {c : Char} {w : Text}
    (hw : ∀ d ∈ c :: w, d ∉ lineBreak) (h : breakLines s = a ++ (c :: w ++ y)) :
    ∃ b r, s = b ++ (c :: w ++ r) ∧ breakLines r = y := by
  obtain ⟨hc, hw⟩ := List.forall_mem_cons.1 hw
  obtain ⟨b, x, rfl, hx⟩ := eq_append_of_breakLines hc h
  obtain ⟨r, rfl, hr⟩ := eq_append_of_breakLines_front hw hx
  exact ⟨b, r, rfl, hr⟩

theorem infix_of_infix_breakLines {s w : Text} {c : Char} (hw : ∀ d ∈ c :: w, d ∉ lineBreak)
    (h : c :: w <:+: breakLines s) : c :: w <:+: s := by
  obtain ⟨a, y, h⟩ := h
  rw [List.append_assoc] at h
  obtain ⟨b, r, rfl, -⟩ := eq_append_of_breakLines_word hw h.symm
  exact ⟨b, r, by simp⟩

/-- Breaks make up no closing tag of HTML. -/
theorem not_infix_breakLines {s : Text} (h : '<' ∉ s) : ¬ ['<', '/'] <:+: breakLines s := by
  have hbreak : ∀ y : Text, ¬ ['<', '/'] <:+: y → ¬ ['<', '/'] <:+: lineBreak ++ y := by
    intro y hy
    have heq : lineBreak = ['<', 'b', 'r', '>'] := by decide
    simpa [heq, List.infix_cons_iff] using hy
  fun_induction breakLines s with
  | case1 s ih => exact hbreak _ (ih fun hs => h (by simp [hs]))
  | case2 s ih => exact hbreak _ (ih fun hs => h (by simp [hs]))
  | case3 c s hcrlf hlf ih =>
    obtain ⟨hc, hs⟩ := not_or.1 (mt List.mem_cons.2 h)
    rw [List.infix_cons_iff, not_or, List.cons_prefix_cons]
    exact ⟨fun hp => hc hp.1, ih hs⟩
  | case4 => simp

end Text

/-! ## Words in other letters -/

/-- A word without small letters occurs up to letter case only if it occurs as it is. -/
theorem infix_of_infix_map_foldCase {w s : Text} (hw : ∀ c ∈ w, c.isLower = false)
    (h : w <:+: s.map foldCase) : w <:+: s := by
  obtain ⟨x, y, h⟩ := h
  obtain ⟨xw, y', rfl, hxw, -⟩ := List.map_eq_append_iff.1 h.symm
  obtain ⟨x', w', rfl, -, hw'⟩ := List.map_eq_append_iff.1 hxw
  have hself : w'.map foldCase = w' := by
    refine (List.map_congr_left fun c hc => ?_).trans (List.map_id w')
    exact (foldCase_eq (hw _ (hw' ▸ List.mem_map_of_mem hc)) rfl).symm
  rw [hself] at hw'
  rw [← hw']
  exact List.infix_append x' w' y'

/-- What closing tags start with. -/
def closingMark : Text := ['[', '/']

theorem TagPair.misses_of_closingMark {t : TagPair} {s : Text} (h : ¬ closingMark <:+: s) :
    t.pattern.Misses s := by
  refine misses_of_not_isInfix fun hi => h (infix_of_infix_map_foldCase (by decide) ?_)
  exact (List.prefix_append closingMark (t.name ++ [']'])).isInfix.trans hi

/-! ## Documents in which nothing closes -/

/-- A text without closing tags, HTML, URLs and the characters of placeholders, and with one item
marker at most. -/
structure Unclosing (s : Text) : Prop where
  noClosing : ¬ closingMark <:+: s
  noMarkup : '<' ∉ s
  noScheme : ¬ schemeMark <:+: s
  unreserved : Guarded.Unreserved s
  oneMarker : ∀ a b c, s ≠ a ++ (Item.markerText ++ (b ++ (Item.markerText ++ c)))

/-- What holds of such a text when its lines are broken. -/
structure Settled (s : Text) : Prop where
  noClosing : ¬ closingMark <:+: s
  noEnd : ¬ ['<', '/'] <:+: s
  noScheme : ¬ schemeMark <:+: s
  oneMarker : (Item.parts s).2.length ≤ 1

theorem Unclosing.breakLines {s : Text} (h : Unclosing s) : Settled s.breakLines where
  noClosing hi := h.noClosing (Text.infix_of_infix_breakLines (by decide) hi)
  noEnd := Text.not_infix_breakLines h.noMarkup
  noScheme hi := h.noScheme (Text.infix_of_infix_breakLines (by decide) hi)
  oneMarker := Item.length_parts_le_one fun a b c hs => by
    rw [Item.markerText_eq] at hs
    obtain ⟨a', r, ha, hr⟩ := Text.eq_append_of_breakLines_word (by decide) hs
    obtain ⟨b', c', hb, -⟩ := Text.eq_append_of_breakLines_word (by decide) hr
    refine h.oneMarker a' b' c' ?_
    rw [ha, hb, Item.markerText_eq]

theorem Guarded.protect_of_unclosing {s : Text} (h : Unclosing s) (m : CodeMatching) :
    protect s m = ⟨s, []⟩ := by
  have hstrip : strip s = s := strip_eq_self h.unreserved
  have hclose : ¬ tag.closer <:+: s.map foldCase := fun hi => h.noClosing
    (infix_of_infix_map_foldCase (by decide) ((List.prefix_append closingMark _).isInfix.trans hi))
  have hmisses : (pattern m).Misses s := by
    cases m with
    | nearest => exact TagPair.misses_of_not_isInfix hclose
    | greedy =>
      intro t ht
      show readGreedy? t = none
      rw [readGreedy?]
      cases ho : tag.readOpening? t with
      | none => rfl
      | some x =>
        obtain ⟨opening, param, r⟩ := x
        have hr : r <:+ s := by
          rw [(TagPair.readOpening?_source ho).1] at ht
          exact (List.suffix_append opening r).trans ht
        have hnone : farthest? foldCase tag.closer r = none :=
          farthest?_of_not_isInfix fun hi => hclose (hi.trans (hr.isInfix.map foldCase))
        simp only [hnone, Option.map_none]
  have hpieces : (pattern m).pieces s = s.map .plain := hmisses.pieces
  have hfill := Piece.fillFrom_plain (fun k (_ : Region) => placeholder k) 0 s []
  rw [List.append_nil] at hfill
  have hcontents : contents (s.map .plain) = [] := by
    rw [contents, List.filterMap_map]
    exact List.filterMap_eq_nil_iff.2 fun _ _ => rfl
  simp only [protect, hstrip, hpieces, hfill, hcontents, Piece.fillFrom, List.append_nil]

/-! ## The first step -/

theorem substitute_newline (s : Text) :
    (((Pattern.word id ['\n'] (by decide)).map
      fun w => ({ opening := w } : Region)).substitute fun _ => lineBreak) s =
        s.flatMap fun c => if c = '\n' then lineBreak else [c] := by
  induction s with
  | nil => exact Pattern.substitute_nil _ _
  | cons c s ih =>
    by_cases hc : c = '\n'
    · have hread : ((Pattern.word id ['\n'] (by decide)).map
          fun w => ({ opening := w } : Region)).read? (c :: s) = some ({ opening := ['\n'] }, s) := by
        rw [hc]
        rfl
      rw [Pattern.substitute_of_read hread, ih, List.flatMap_cons, if_pos hc]
    · have hread : ((Pattern.word id ['\n'] (by decide)).map
          fun w => ({ opening := w } : Region)).read? (c :: s) = none :=
        Option.map_eq_none_iff.2 (readWord?_cons_of_ne hc)
      rw [Pattern.substitute_of_not_read hread, ih, List.flatMap_cons, if_neg hc]
      rfl

theorem apply_lineBreaks_of_unclosing (o : Options) {s : Text} (h : Unclosing s) (t : Tally) :
    Stage.lineBreaks.apply o (s, t) = (s.breakLines, t) := by
  have hlines : Stage.lineBreaks.apply o (s, t) =
      Rule.applyAll o (Stage.lineBreaks.rules.drop 2) (s.breakLines, t) := by
    rw [Text.breakLines_eq_flatMap, ← substitute_newline, ← substitute_crlf]
    rfl
  rw [hlines]
  refine Rule.applyAll_of_misses fun r hr => ?_
  simp only [Stage.rules, List.drop_succ_cons, List.drop_zero, List.mem_singleton] at hr
  subst hr
  intro u hu
  -- a heading that ends has a closing tag
  have hmark : closingMark <:+: "[/heading]<br>".toList :=
    (List.prefix_append closingMark "heading]<br>".toList).isInfix
  have hword : ¬ "[/heading]<br>".toList <:+: u.map foldCase := fun hi =>
    h.breakLines.noClosing (infix_of_infix_map_foldCase (by decide)
      (hmark.trans (hi.trans (hu.isInfix.map foldCase))))
  exact Option.map_eq_none_iff.2 (readWord?_of_not_isInfix hword)

/-! ## The later steps -/

theorem Autolink.autolink_eq_self {s : Text} (h : ∀ t, t <:+ s → readUrl? t = none) :
    autolink s = s := by
  rw [autolink, Pattern.substitute]
  fun_induction Pattern.pieces pattern s with
  | case1 => rfl
  | case2 c s x r hread ih =>
    have hread : readSpot? (c :: s) = some (x, r) := hread
    have hs := (readSpot?_source hread).1
    have hr : r <:+ c :: s := ⟨x.source, hs.symm⟩
    have hwrite : write x = x.source := by
      cases x with
      | kept a => rfl
      | url a =>
        -- a URL would have been read here
        have hurl := h (c :: s) List.suffix_rfl
        rw [readSpot?, hurl] at hread
        split at hread <;> cases hread
    rw [List.flatMap_cons, ih fun t ht => h t (ht.trans hr), Piece.fill, hwrite, hs]
  | case3 c s hread ih =>
    rw [List.flatMap_cons, ih fun t ht => h t (ht.trans (List.suffix_cons c s))]
    rfl

namespace Settled

variable {s : Text}

theorem readUrl? (h : Settled s) : ∀ t, t <:+ s → Autolink.readUrl? t = none := by
  intro t ht
  have hno : ¬ schemeMark <:+: t := fun hi => h.noScheme (hi.trans ht.isInfix)
  have hsecure := Autolink.readWord?_of_noScheme (p := "https".toList)
    (w := "https://".toList) (by decide) hno
  have hplain := Autolink.readWord?_of_noScheme (p := "http".toList)
    (w := "http://".toList) (by decide) hno
  exact Autolink.readUrl?_of_not_scheme hsecure hplain

theorem noListEnd (h : Settled s) : Item.NoListEnd s := by
  have hend : ∀ w : Text, ¬ '<' :: '/' :: w <:+: s.map foldCase := fun w hi => h.noEnd
    (infix_of_infix_map_foldCase (by decide) ((List.prefix_append ['<', '/'] w).isInfix.trans hi))
  exact ⟨hend _, hend _⟩

theorem noListClosing (h : Settled s) : ¬ "[/list]".toList <:+: s.map foldCase := fun hi =>
  h.noClosing (infix_of_infix_map_foldCase (by decide)
    ((List.prefix_append closingMark "list]".toList).isInfix.trans hi))

theorem misses_dropBreak (h : Settled s) (name : String) {tag : String}
    (htag : ['<', '/'] <+: tag.toList) : (Rule.dropBreakAfter name tag).pattern.Misses s := by
  intro t ht
  have hword : readWord? id tag.toList t = none := readWord?_of_not_isInfix fun hi => by
    rw [List.map_id] at hi
    exact h.noEnd (htag.isInfix.trans (hi.trans ht.isInfix))
  show (Rule.readTagBreak? tag.toList t).map _ = none
  rw [Rule.readTagBreak?, hword]
  rfl

theorem scan_closes (h : Settled s) (k : BoxKind) : ∀ u ∈ Tag.scan s, u.closes k.tag = false := by
  intro u hu
  cases u with
  | opening n p => rfl
  | text run => rfl
  | closing n =>
    refine absurd ?_ h.noClosing
    obtain ⟨pre, post, hsplit⟩ := List.append_of_mem hu
    rw [← Tag.flatMap_source_scan s, hsplit]
    exact ⟨pre.flatMap Tag.source, n ++ ']' :: post.flatMap Tag.source,
      by simp [Tag.source, closingMark]⟩

/-- The rules of the later stages find nothing. -/
theorem misses (h : Settled s) {st : Stage} (hst : st ≠ .lineBreaks) {r : Rule}
    (hr : r ∈ st.rules) : r.pattern.Misses s := by
  have hpair : ∀ t : TagPair, t.pattern.Misses s := fun _ =>
    TagPair.misses_of_closingMark h.noClosing
  cases st with
  | lineBreaks => exact absurd rfl hst
  | collapseBreaks =>
    simp only [Stage.rules, List.mem_cons, List.not_mem_nil, or_false] at hr
    rcases hr with rfl | rfl
    · exact h.misses_dropBreak _ (by decide +kernel)
    · exact h.misses_dropBreak _ (by decide +kernel)
  | linksAndMedia =>
    simp only [Stage.rules, List.mem_cons, List.not_mem_nil, or_false] at hr
    rcases hr with rfl | rfl | rfl | rfl | rfl | rfl | rfl <;> exact hpair _
  | formatting =>
    simp only [Stage.rules, List.mem_cons, List.not_mem_nil, or_false] at hr
    rcases hr with rfl | rfl | rfl | rfl | rfl <;> exact hpair _
  | trailing =>
    simp only [Stage.rules, List.mem_cons, List.not_mem_nil, or_false] at hr
    rcases hr with rfl | rfl | rfl <;> exact hpair _
  | quotes =>
    simp only [Stage.rules, List.mem_cons, List.not_mem_nil, or_false] at hr
    rcases hr with rfl | rfl <;> exact hpair _
  | color | specials | inlineCode | layout =>
    simp only [Stage.rules, List.mem_singleton] at hr
    subst hr
    exact hpair _

/-- No later step finds anything. -/
theorem apply_late (h : Settled s) (o : Options) (t : Tally) {st : Step}
    (hst : st ∈ Step.pipeline.tail) : st.apply o (s, t) = (s, t) := by
  cases st with
  | rules stage =>
    have hstage : stage ≠ .lineBreaks := by
      rintro rfl
      exact absurd hst (by decide)
    exact Rule.applyAll_of_misses fun r hr => h.misses hstage hr
  | size =>
    have hsize : ∀ r ∈ Rule.size? o.allowedSizes, r.pattern.Misses s := by
      intro r hr
      rw [Rule.size?] at hr
      split at hr
      · cases hr
      · cases hr
        exact TagPair.misses_of_closingMark h.noClosing
    rw [Step.apply]
    cases hr : Rule.size? o.allowedSizes with
    | none => rfl
    | some r => exact Rule.apply_of_misses (hsize r hr)
  | boxes k => exact Box.resolve_of_no_closing o (h.scan_closes k) t
  | lists =>
    rw [Step.apply, Item.resolve_of_not_isInfix h.noListClosing,
      (Item.split_eq_self_iff h.noListEnd).2 h.oneMarker]
  | links => rw [Step.apply, Autolink.autolink_eq_self h.readUrl?]

end Settled

namespace Page

theorem run_of_unclosing (o : Options) {s : Text} (h : Unclosing s) (m : WidgetMap) :
    run o s m = (s.breakLines, { widgets := m }) := by
  have hlate : ∀ (steps : List Step) (x : Text × Tally), (∀ st ∈ steps, st.apply o x = x) →
      steps.foldl (fun x st => st.apply o x) x = x := by
    intro steps x hsteps
    induction steps with
    | nil => rfl
    | cons st steps ih =>
      obtain ⟨hst, hsteps⟩ := List.forall_mem_cons.1 hsteps
      rw [List.foldl_cons, hst, ih hsteps]
  show (Step.rules .lineBreaks :: Step.pipeline.tail).foldl (fun x st => st.apply o x) _ = _
  rw [List.foldl_cons, Step.apply, apply_lineBreaks_of_unclosing o h]
  exact hlate _ _ fun st hst => h.breakLines.apply_late o _ hst

/-- A document in which nothing closes shows as it is, with a break in the place of every line end,
and has no widgets. -/
theorem render_unclosed (o : Options) {source : Text} (h : Unclosing source) (m : WidgetMap) :
    (render o source m).html = source.breakLines ∧ (render o source m).widgets = .empty := by
  have hprotect := Guarded.protect_of_unclosing h o.codeBlocks
  have hrun := run_of_unclosing o h m
  constructor
  · rw [html_render, hprotect, hrun, Guarded.restore_nil]
  · rw [widgets_render, hprotect, hrun]
    exact WidgetMap.ext (List.filter_eq_nil_iff.2 fun _ _ => by simp)

/-- A box, a list and a bold text that are opened, with line ends of both kinds. The widget that an
earlier render left is forgotten. -/
theorem render_unclosed_dangling :
    Unclosing "[box=a]\r\n[list][*]x [b\nhttp".toList ∧
      (render {} "[box=a]\r\n[list][*]x [b\nhttp".toList
        ⟨[("box-1".toList, true)], List.pairwise_singleton _ _⟩).html =
          "[box=a]<br>[list][*]x [b<br>http".toList ∧
      (render {} "[box=a]\r\n[list][*]x [b\nhttp".toList
        ⟨[("box-1".toList, true)], List.pairwise_singleton _ _⟩).widgets = .empty := by
  have h : Unclosing "[box=a]\r\n[list][*]x [b\nhttp".toList :=
    { noClosing := by decide +kernel
      noMarkup := by decide +kernel
      noScheme := by decide +kernel
      unreserved := by unfold Guarded.Unreserved; decide +kernel
      oneMarker := fun a b c hs => by
        -- two markers have two stars
        have hstars := congrArg (List.count '*') hs
        have hone : List.count '*' "[box=a]\r\n[list][*]x [b\nhttp".toList = 1 := by decide +kernel
        have hmarker : List.count '*' Item.markerText = 1 := by decide +kernel
        rw [hone] at hstars
        simp only [List.count_append, hmarker] at hstars
        omega }
  obtain ⟨hhtml, hwidgets⟩ := render_unclosed {} h
    ⟨[("box-1".toList, true)], List.pairwise_singleton _ _⟩
  refine ⟨h, hhtml.trans ?_, hwidgets⟩
  decide +kernel

end Page

end BBCode
