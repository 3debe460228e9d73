import BBCode.Proofs.Alphabet
import BBCode.Proofs.Text.LineEnds

/-!
# BBCode.Proofs.Guard.LineEnds

A document renders alike however its lines end. Code regions are lifted out with the line ends
they have; in what is left, the first rule of all shortens the line ends, so from there on the two
renders are the same. The pages differ in the bodies of code blocks only.

* `protect_toCrlf`: the same code regions are lifted out.
* `run_toCrlf`: the steps make the same of the two texts.
* `toLf_fill`: a page whose code blocks have long line ends, with the line ends shortened.
* `render_toCrlf`: the statement about pages and widget maps.
-/

namespace BBCode

open Text

namespace Guarded

/-! ## Lifting out -/

theorem strip_toCrlf (s : Text) : strip (toCrlf s) = toCrlf (strip s) := by
  induction s with
  | nil => rfl
  | cons c s ih =>
    by_cases hc : c = '\n'
    · rw [hc]
      exact congrArg (fun t => '\r' :: '\n' :: t) ih
    · rw [toCrlf_cons_of_ne hc, strip, List.filter_cons, strip, List.filter_cons]
      split
      · rw [toCrlf_cons_of_ne hc]
        exact congrArg (c :: ·) ih
      · exact ih

/-- The region with other line ends in its body. -/
def regionToCrlf (r : Region) : Region := { r with body := toCrlf r.body }

theorem read?_toCrlf (m : CodeMatching) (s : Text) :
    (pattern m).read? (toCrlf s) =
      ((pattern m).read? s).map fun x => (regionToCrlf x.1, toCrlf x.2) := by
  have hopening : tag.readOpening? (toCrlf s) =
      (tag.readOpening? s).map fun x => (x.1, x.2.1, toCrlf x.2.2) := by
    show (readWord? foldCase "[code]".toList (toCrlf s)).map _ = Option.map _ (Option.map _ _)
    rw [readWord?_toCrlf (by decide), Option.map_map, Option.map_map]
    rfl
  cases m with
  | nearest =>
    show tag.readPair? (toCrlf s) = (tag.readPair? s).map _
    rw [TagPair.readPair?, hopening, TagPair.readPair?]
    cases tag.readOpening? s with
    | none => rfl
    | some x =>
      show (nearest? foldCase tag.closer (toCrlf x.2.2)).map _ = _
      rw [nearest?_toCrlf (by decide) (by decide)]
      simp only [Option.map_map]
      rfl
  | greedy =>
    show readGreedy? (toCrlf s) = (readGreedy? s).map _
    rw [readGreedy?, hopening, readGreedy?]
    cases tag.readOpening? s with
    | none => rfl
    | some x =>
      show (farthest? foldCase tag.closer (toCrlf x.2.2)).map _ = _
      rw [farthest?_toCrlf (by decide) (by decide)]
      simp only [Option.map_map]
      rfl

/-- No code region starts where a line ends. -/
theorem read?_newline (m : CodeMatching) (s : Text) : (pattern m).read? ('\n' :: s) = none := by
  have hopening : tag.readOpening? ('\n' :: s) = none := by
    obtain ⟨-, hword⟩ := readWord?_newline (f := foldCase) (w := "[code]".toList) (by decide)
      (by decide) s
    exact congrArg (Option.map fun x : Text × Text => (x.1, ([] : Text), x.2)) hword
  cases m with
  | nearest =>
    show tag.readPair? ('\n' :: s) = none
    rw [TagPair.readPair?, hopening]
  | greedy =>
    show readGreedy? ('\n' :: s) = none
    rw [readGreedy?, hopening]

/-- The pieces with other line ends. -/
def piecesToCrlf (ps : List (Piece Char Region)) : List (Piece Char Region) :=
  ps.flatMap fun
    | .plain c => (toCrlf [c]).map .plain
    | .found r => [.found (regionToCrlf r)]

theorem pieces_toCrlf (m : CodeMatching) (s : Text) :
    (pattern m).pieces (toCrlf s) = piecesToCrlf ((pattern m).pieces s) := by
  fun_induction Pattern.pieces (pattern m) s with
  | case1 => simp [piecesToCrlf]
  | case2 c s x r h ih =>
    have hread : (pattern m).read? (toCrlf (c :: s)) = some (regionToCrlf x, toCrlf r) := by
      rw [read?_toCrlf, h]
      rfl
    rw [Pattern.pieces_of_read hread, ih]
    rfl
  | case3 c s h ih =>
    have hread : (pattern m).read? (toCrlf (c :: s)) = none := by
      rw [read?_toCrlf, h]
      rfl
    by_cases hc : c = '\n'
    · rw [hc, toCrlf_newline] at hread
      rw [hc, toCrlf_newline, Pattern.pieces_of_not_read hread,
        Pattern.pieces_of_not_read (read?_newline m _), ih]
      rfl
    · rw [toCrlf_cons_of_ne hc] at hread
      rw [toCrlf_cons_of_ne hc, Pattern.pieces_of_not_read hread, ih, piecesToCrlf, piecesToCrlf,
        List.flatMap_cons]
      simp only [toCrlf_cons_of_ne hc]
      rfl

theorem newline_not_mem_placeholder (k : Nat) : '\n' ∉ placeholder k := by
  have hdecimal : '\n' ∉ decimal k := fun h => absurd (isDigit_of_mem_decimal h) (by decide)
  have hstart : '\n' ∉ placeholderStart :: "CODE".toList := by decide
  have hstop : '\n' ∉ [placeholderStop] := by decide
  intro h
  rcases List.mem_append.1 h with h | h
  · rcases List.mem_append.1 h with h | h
    · exact hstart h
    · exact hdecimal h
  · exact hstop h

theorem fillFrom_piecesToCrlf (n : Nat) (ps : List (Piece Char Region)) :
    (Piece.fillFrom (fun k _ => placeholder k) n (piecesToCrlf ps)).1 =
      toCrlf (Piece.fillFrom (fun k _ => placeholder k) n ps).1 := by
  induction ps generalizing n with
  | nil => rfl
  | cons p ps ih =>
    cases p with
    | plain c =>
      show (Piece.fillFrom _ n ((toCrlf [c]).map .plain ++ piecesToCrlf ps)).1 = _
      rw [Piece.fillFrom_plain, ih]
      exact (toCrlf_append [c] _).symm
    | found r =>
      show placeholder n ++ (Piece.fillFrom _ (n + 1) (piecesToCrlf ps)).1 = _
      rw [ih]
      show _ = toCrlf (placeholder n ++ (Piece.fillFrom _ (n + 1) ps).1)
      rw [toCrlf_append, toCrlf_eq_self (newline_not_mem_placeholder n)]

theorem contents_piecesToCrlf (ps : List (Piece Char Region)) :
    contents (piecesToCrlf ps) = (contents ps).map toCrlf := by
  induction ps with
  | nil => rfl
  | cons p ps ih =>
    have hplain : ∀ x : Text,
        contents (x.map .plain ++ piecesToCrlf ps) = contents (piecesToCrlf ps) := by
      intro x
      induction x with
      | nil => rfl
      | cons c x ihx => exact ihx
    cases p with
    | plain c => exact (hplain (toCrlf [c])).trans ih
    | found r => exact congrArg (toCrlf r.body :: ·) ih

/-- From a document with other line ends the same code regions are lifted out. -/
theorem protect_toCrlf (s : Text) (m : CodeMatching) :
    protect (toCrlf s) m = ⟨toCrlf (protect s m).text, (protect s m).blocks.map toCrlf⟩ := by
  rw [protect, strip_toCrlf, pieces_toCrlf, fillFrom_piecesToCrlf, contents_piecesToCrlf]
  rfl

/-- A body shows with the line ends it has. -/
theorem shown_map_toCrlf (blocks : List Text) (k : Nat) :
    shown (blocks.map toCrlf) k = toCrlf (shown blocks k) := by
  have hk : (blocks.map toCrlf).getD k [] = toCrlf (blocks.getD k []) := by
    rw [List.getD_eq_getElem?_getD, List.getD_eq_getElem?_getD, List.getElem?_map]
    cases blocks[k]? <;> rfl
  rw [shown, hk, trimNewlines_toCrlf, escape_toCrlf, shown]

end Guarded

/-! ## The first rule -/

/-- The rule for line ends shortens them. -/
theorem substitute_crlf (s : Text) :
    (((Pattern.word id ['\r', '\n'] (by decide)).map
      fun w => ({ opening := w } : Region)).substitute fun _ => ['\n']) s = toLf s := by
  fun_induction toLf s with
  | case1 s ih =>
    have hread : ((Pattern.word id ['\r', '\n'] (by decide)).map
        fun w => ({ opening := w } : Region)).read? ('\r' :: '\n' :: s) =
          some ({ opening := ['\r', '\n'] }, s) := rfl
    rw [Pattern.substitute_of_read hread, ih]
    rfl
  | case2 c s h ih =>
    have hread : ((Pattern.word id ['\r', '\n'] (by decide)).map
        fun w => ({ opening := w } : Region)).read? (c :: s) = none := by
      show (readWord? id ['\r', '\n'] (c :: s)).map _ = none
      rw [Option.map_eq_none_iff, Option.eq_none_iff_forall_ne_some]
      rintro ⟨a, r⟩ ha
      obtain ⟨hword, hs⟩ := readWord?_eq_some.1 ha
      rw [List.map_id] at hword
      rw [hword] at hs
      obtain ⟨hc, hs⟩ := List.cons.inj hs
      exact h r hc hs
    rw [Pattern.substitute_of_not_read hread, ih]
  | case3 => exact Pattern.substitute_nil _ _

theorem apply_lineBreaks_toCrlf (o : Options) {s : Text} (h : '\r' ∉ s) (t : Tally) :
    Stage.lineBreaks.apply o (toCrlf s, t) = Stage.lineBreaks.apply o (s, t) := by
  have hfirst : ∀ x : Text, Stage.lineBreaks.apply o (x, t) =
      Rule.applyAll o Stage.lineBreaks.rules.tail (toLf x, t) := fun x =>
    congrArg (fun y => Rule.applyAll o Stage.lineBreaks.rules.tail (y, t)) (substitute_crlf x)
  rw [hfirst, hfirst, toLf_toCrlf h, toLf_eq_self h]

theorem Page.run_toCrlf (o : Options) {s : Text} (h : '\r' ∉ s) (m : WidgetMap) :
    run o (toCrlf s) m = run o s m := by
  have hfirst : ∀ x : Text, run o x m =
      Step.pipeline.tail.foldl (fun x s => s.apply o x)
        (Stage.lineBreaks.apply o (x, { widgets := m })) := by
    intro x
    show (Step.rules .lineBreaks :: Step.pipeline.tail).foldl (fun x s => s.apply o x) _ = _
    rw [List.foldl_cons, Step.apply]
  rw [hfirst, hfirst, apply_lineBreaks_toCrlf o h]

/-! ## Pages -/

namespace CodePage

/-- Shortening line ends in the code blocks of a page. -/
theorem toLf_fill {p : CodePage} {bodies : Nat → Text} (h : '\r' ∉ p.fill bodies) :
    toLf (p.fill fun k => toCrlf (bodies k)) = p.fill bodies := by
  have hrest : ∀ rest : List (Nat × Text),
      '\r' ∉ (rest.flatMap fun x => Rule.between "<pre>" "</pre>" (bodies x.1) ++ x.2) →
      toLf (rest.flatMap fun x => Rule.between "<pre>" "</pre>" (toCrlf (bodies x.1)) ++ x.2) =
        rest.flatMap fun x => Rule.between "<pre>" "</pre>" (bodies x.1) ++ x.2 := by
    intro rest
    induction rest with
    | nil => exact fun _ => rfl
    | cons x rest ih =>
      intro hx
      simp only [List.flatMap_cons, Rule.between, List.append_assoc, List.mem_append,
        not_or] at hx ⊢
      obtain ⟨hopen, hbody, hclose, htext, htail⟩ := hx
      simp only [Rule.between, List.append_assoc] at ih
      rw [toLf_append hopen, toLf_toCrlf_append hbody, toLf_append hclose, toLf_append htext,
        ih htail]
  obtain ⟨hfirst, htail⟩ := not_or.1 (mt List.mem_append.2 h)
  rw [fill, toLf_append hfirst, hrest p.rest htail, fill]

end CodePage

namespace Page

/-- The characters but the carriage return. -/
def noReturns : Alphabet where
  has c := c ≠ '\r'
  own c h := by
    rintro rfl
    exact absurd h (by decide)

theorem noReturns_spells {s : Text} : noReturns.Spells s ↔ '\r' ∉ s :=
  ⟨fun h hc => h _ hc rfl, fun h _ hc heq => h (heq ▸ hc)⟩

/-- A document without carriage returns and the same document with one in front of every line
feed leave the same widget map. Their pages are one page with other line ends in the bodies of the
code blocks, and shortening the line ends of the second gives the first. -/
theorem render_toCrlf (o : Options) (ho : '\r' ∉ o.profileUrl) (source : Text)
    (hs : '\r' ∉ source) (m : WidgetMap) :
    (render o (toCrlf source) m).widgets = (render o source m).widgets ∧
      toLf (render o (toCrlf source) m).html = (render o source m).html ∧
      ∃ (page : CodePage) (bodies : Nat → Text), (∀ k, '<' ∉ bodies k) ∧
        (render o source m).html = page.fill bodies ∧
          (render o (toCrlf source) m).html = page.fill fun k => toCrlf (bodies k) := by
  have hprotect := Guarded.protect_toCrlf source o.codeBlocks
  have hrun : run o (toCrlf (Guarded.protect source o.codeBlocks).text) m =
      run o (Guarded.protect source o.codeBlocks).text m :=
    run_toCrlf o (noReturns_spells.1 (Alphabet.spells_protect (noReturns_spells.2 hs) _).1) m
  obtain ⟨page, -, hpage⟩ := Guarded.restore_eq_fill
    (Guarded.protect source o.codeBlocks).blocks.length
    (run o (Guarded.protect source o.codeBlocks).text m).1
  have hhtml : (render o source m).html =
      page.fill (Guarded.shown (Guarded.protect source o.codeBlocks).blocks) :=
    hpage _ rfl fun b hb => Guarded.unreserved_of_mem_blocks hb
  have hhtml' : (render o (toCrlf source) m).html =
      page.fill fun k => toCrlf (Guarded.shown (Guarded.protect source o.codeBlocks).blocks k) := by
    have hblocks : ∀ b ∈ (Guarded.protect source o.codeBlocks).blocks.map toCrlf,
        Guarded.Unreserved b := fun b hb =>
      Guarded.unreserved_of_mem_blocks (s := toCrlf source) (m := o.codeBlocks)
        (by rwa [hprotect])
    rw [html_render, hprotect, hrun, hpage _ (List.length_map _) hblocks]
    exact congrArg page.fill (funext (Guarded.shown_map_toCrlf _))
  have hnone : '\r' ∉ (render o source m).html :=
    noReturns_spells.1 (Alphabet.spells_html (noReturns_spells.2 ho) (noReturns_spells.2 hs) m)
  refine ⟨?_, ?_, page, _, fun k => not_mem_escape _, hhtml, hhtml'⟩
  · rw [widgets_render, hprotect, hrun, widgets_render]
  · rw [hhtml] at hnone ⊢
    rw [hhtml', CodePage.toLf_fill hnone]

/-- A box and a code region with a line end in each. -/
theorem render_toCrlf_code :
    '\r' ∉ ({} : Options).profileUrl ∧ '\r' ∉ "[box=a]\nb[/box][code]c\nd[/code]".toList ∧
      (render {} "[box=a]\r\nb[/box][code]c\r\nd[/code]".toList .empty).widgets =
        (render {} "[box=a]\nb[/box][code]c\nd[/code]".toList .empty).widgets ∧
      toLf (render {} "[box=a]\r\nb[/box][code]c\r\nd[/code]".toList .empty).html =
        (render {} "[box=a]\nb[/box][code]c\nd[/code]".toList .empty).html := by
  have ho : '\r' ∉ ({} : Options).profileUrl := by decide
  have hs : '\r' ∉ "[box=a]\nb[/box][code]c\nd[/code]".toList := by decide
  have hcrlf : toCrlf "[box=a]\nb[/box][code]c\nd[/code]".toList =
      "[box=a]\r\nb[/box][code]c\r\nd[/code]".toList := by decide
  obtain ⟨hwidgets, hhtml, -⟩ := render_toCrlf {} ho _ hs .empty
  rw [hcrlf] at hwidgets hhtml
  exact ⟨ho, hs, hwidgets, hhtml⟩

end Page

end BBCode
