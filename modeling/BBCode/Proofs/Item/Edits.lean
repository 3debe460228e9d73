import BBCode.Proofs.Item.Flat
import BBCode.Proofs.Text.Seam

/-!
# BBCode.Proofs.Item.Edits

Splitting an arbitrary text into items, as a list of edits. The markers and the ends of lists cut a
text into gaps, and there is only one such cut. Every marker but a last one becomes the start of an
item that is closed in front of the next bound; line breaks at the ends of the item are dropped, and
nothing else is.

* `Cut.Exact.pieces`: the splitter finds the bounds of the one exact cut.
* `write_edits`: what it writes is what the edits make.
* `split_edits`: the whole step, with what becomes of the bounds and how many items there are.
-/

namespace BBCode.Item

/-- The words that bound items. -/
def boundWords : List Text := [markerText, "</ol>".toList, "</ul>".toList]

/-- No bound stands in the text, in whatever letter case. -/
def Bare (s : Text) : Prop := ∀ w ∈ boundWords, ¬ w <:+: s.map foldCase

/-- The spellings of a bound. -/
def Bound.Spelled : Bound → Prop
  | marker => True
  | listEnd e => e.map foldCase ∈ ["</ol>".toList, "</ul>".toList]

/-- The text in front of the first bound, and each bound with the text up to the next one. -/
structure Cut where
  first : Text
  rest : List (Bound × Text)

namespace Cut

def source (c : Cut) : Text := c.first ++ c.rest.flatMap fun x => x.1.source ++ x.2

def bounds (c : Cut) : List Bound := c.rest.map Prod.fst

/-- A cut at all bounds of the text. -/
structure Exact (c : Cut) : Prop where
  first : Bare c.first
  spelled : ∀ x ∈ c.rest, x.1.Spelled
  gaps : ∀ x ∈ c.rest, Bare x.2

def pieces (c : Cut) : List (Piece Char Bound) :=
  c.first.map .plain ++ c.rest.flatMap fun x => .found x.1 :: x.2.map .plain

def ofPieces : List (Piece Char Bound) → Cut
  | [] => ⟨[], []⟩
  | .plain c :: ps => ⟨c :: (ofPieces ps).first, (ofPieces ps).rest⟩
  | .found b :: ps => ⟨[], (b, (ofPieces ps).first) :: (ofPieces ps).rest⟩

end Cut

/-! ## Reading bounds -/

theorem readBound?_eq_none_iff {s : Text} :
    readBound? s = none ↔ ∀ w ∈ boundWords, readWord? foldCase w s = none := by
  have hmarker : readWord? foldCase markerText s = readWord? id markerText s :=
    readWord?_foldCase (by decide) s
  simp only [boundWords, List.forall_mem_cons, List.not_mem_nil, false_implies, implies_true,
    and_true, hmarker, readBound?]
  cases readWord? id markerText s with
  | some x => simp
  | none => simp

theorem readBound?_source {s r : Text} {b : Bound} (h : readBound? s = some (b, r)) :
    s = b.source ++ r ∧ b.Spelled := by
  unfold readBound? at h
  split at h
  · rename_i w q hq
    cases h
    obtain ⟨hw, hs⟩ := readWord?_eq_some.1 hq
    rw [List.map_id] at hw
    exact ⟨by rw [hs, hw]; rfl, trivial⟩
  · simp only [Option.map_eq_some_iff, Prod.mk.injEq, Option.or_eq_some_iff] at h
    obtain ⟨x, hx, rfl, rfl⟩ := h
    rcases hx with hx | ⟨-, hx⟩
    · obtain ⟨hw, hs⟩ := readWord?_eq_some.1 hx
      exact ⟨hs, by simp [Bound.Spelled, hw]⟩
    · obtain ⟨hw, hs⟩ := readWord?_eq_some.1 hx
      exact ⟨hs, by simp [Bound.Spelled, hw]⟩

namespace Bound

theorem Spelled.listEnd {e : Text} (h : (listEnd e).Spelled) :
    e.length = 5 ∧ ∃ t, e = '<' :: t := by
  have hwords : ∀ w ∈ ["</ol>".toList, "</ul>".toList], w.length = 5 ∧ w.head? = some '<' := by
    decide
  obtain ⟨hlen, hhead⟩ := hwords _ h
  rw [List.length_map] at hlen
  obtain ⟨t, ht⟩ := List.head?_eq_some_iff.1 hhead
  obtain ⟨u, hu, -⟩ := map_foldCase_eq_cons (by decide) ht
  exact ⟨hlen, u, hu⟩

theorem Spelled.follows {b : Bound} (hb : b.Spelled) (r : Text) : Follows (b.source ++ r) := by
  cases b with
  | marker =>
    rintro c ⟨⟩
    exact .inl rfl
  | listEnd e =>
    obtain ⟨-, t, rfl⟩ := hb.listEnd
    rintro c ⟨⟩
    exact .inr rfl

/-- The bound at the front of a text is told by the text. -/
theorem source_append_inj {b b' : Bound} (hb : b.Spelled) (hb' : b'.Spelled) {r r' : Text}
    (h : b.source ++ r = b'.source ++ r') : b = b' ∧ r = r' := by
  cases b with
  | marker =>
    cases b' with
    | marker => exact ⟨rfl, List.append_cancel_left h⟩
    | listEnd e =>
      obtain ⟨-, t, rfl⟩ := hb'.listEnd
      cases h
  | listEnd e =>
    obtain ⟨hlen, t, ht⟩ := hb.listEnd
    cases b' with
    | marker =>
      subst ht
      cases h
    | listEnd e' =>
      obtain ⟨he, hr⟩ := List.append_inj h (hlen.trans hb'.listEnd.1.symm)
      have he : e = e' := he
      exact ⟨by rw [he], hr⟩

end Bound

theorem readBound?_append {b : Bound} (hb : b.Spelled) (r : Text) :
    readBound? (b.source ++ r) = some (b, r) := by
  have hword : b.source.map foldCase ∈ boundWords := by
    cases b with
    | marker => decide
    | listEnd e => exact List.mem_cons_of_mem _ hb
  cases hread : readBound? (b.source ++ r) with
  | none =>
    have hnone := readBound?_eq_none_iff.1 hread _ hword
    rw [readWord?_eq_some.2 ⟨rfl, rfl⟩] at hnone
    cases hnone
  | some x =>
    obtain ⟨b', r'⟩ := x
    obtain ⟨hs, hb'⟩ := readBound?_source hread
    obtain ⟨rfl, rfl⟩ := Bound.source_append_inj hb hb' hs
    rfl

theorem Bare.skips {s r : Text} (h : Bare s) (hr : Follows r) : SkipsBefore readBound? r s := by
  have htail : ∀ w ∈ boundWords, foldCase '[' ∉ w.tail ∧ foldCase '<' ∉ w.tail := by decide
  have hskip : ∀ w ∈ boundWords, SkipsBefore (readWord? foldCase w) r s := by
    intro w hw
    refine skipsBefore_of_not_infix (h w hw) fun c hc => ?_
    rcases hr c hc with rfl | rfl
    · exact (htail w hw).1
    · exact (htail w hw).2
  clear h
  induction s with
  | nil => exact trivial
  | cons c s ih =>
    exact ⟨readBound?_eq_none_iff.2 fun w hw => (hskip w hw).1, ih fun w hw => (hskip w hw).2⟩

/-! ## The exact cut -/

namespace Cut

variable {c : Cut}

theorem ofPieces_plain (x : Text) (ps : List (Piece Char Bound)) :
    ofPieces (x.map .plain ++ ps) = ⟨x ++ (ofPieces ps).first, (ofPieces ps).rest⟩ := by
  induction x with
  | nil => rfl
  | cons d x ih => rw [List.map_cons, List.cons_append, ofPieces, ih, List.cons_append]

theorem ofPieces_pieces (c : Cut) : ofPieces c.pieces = c := by
  obtain ⟨first, rest⟩ := c
  have hrest : ofPieces (rest.flatMap fun x => .found x.1 :: x.2.map .plain) = ⟨[], rest⟩ := by
    induction rest with
    | nil => rfl
    | cons x rest ih =>
      rw [List.flatMap_cons, List.cons_append, ofPieces, ofPieces_plain, ih]
      simp
  rw [pieces, ofPieces_plain, hrest]
  simp

/-- What stands at a bound or at the end of the text. -/
theorem follows_rest {xs : List (Bound × Text)} (h : ∀ x ∈ xs, x.1.Spelled) :
    Follows (xs.flatMap fun x => x.1.source ++ x.2) := by
  cases xs with
  | nil => nofun
  | cons x xs =>
    rw [List.flatMap_cons, List.append_assoc]
    exact (h x List.mem_cons_self).follows _

/-- The splitter finds the bounds of an exact cut. -/
theorem Exact.pieces (h : c.Exact) : pattern.pieces c.source = c.pieces := by
  obtain ⟨first, rest⟩ := c
  have hspelled : ∀ x ∈ rest, x.1.Spelled := h.spelled
  have hgaps : ∀ x ∈ rest, Bare x.2 := h.gaps
  have hrest : pattern.pieces (rest.flatMap fun x => x.1.source ++ x.2) =
      rest.flatMap fun x => .found x.1 :: x.2.map .plain := by
    clear h
    induction rest with
    | nil => exact Pattern.pieces_nil _
    | cons x rest ih =>
      obtain ⟨hx, hspelled⟩ := List.forall_mem_cons.1 hspelled
      obtain ⟨hgap, hgaps⟩ := List.forall_mem_cons.1 hgaps
      have hread := readBound?_append hx (x.2 ++ rest.flatMap fun x => x.1.source ++ x.2)
      rw [List.flatMap_cons, List.append_assoc, Pattern.pieces_of_read (p := pattern) hread,
        (hgap.skips (follows_rest hspelled)).pieces_append (p := pattern), ih hspelled hgaps]
      rfl
  rw [source, (h.first.skips (follows_rest hspelled)).pieces_append (p := pattern), hrest]
  rfl

theorem source_ofPieces (s : Text) : (ofPieces (pattern.pieces s)).source = s := by
  fun_induction Pattern.pieces pattern s with
  | case1 => rfl
  | case2 c s b r hread ih =>
    rw [(readBound?_source hread).1]
    simpa [ofPieces, source] using ih
  | case3 c s hnone ih => simpa [ofPieces, source] using ih

/-- Every text has an exact cut. -/
theorem exact_ofPieces (s : Text) : (ofPieces (pattern.pieces s)).Exact := by
  have hnil : Bare [] := by
    intro w hw hi
    have hne : ∀ w ∈ boundWords, w ≠ [] := by decide
    exact hne w hw (List.infix_nil.1 hi)
  fun_induction Pattern.pieces pattern s with
  | case1 =>
    exact ⟨hnil, fun _ hx => absurd hx List.not_mem_nil, fun _ hx => absurd hx List.not_mem_nil⟩
  | case2 c s b r hread ih =>
    have hb := (readBound?_source hread).2
    exact ⟨hnil, List.forall_mem_cons.2 ⟨hb, ih.spelled⟩,
      List.forall_mem_cons.2 ⟨ih.first, ih.gaps⟩⟩
  | case3 c s hnone ih =>
    refine ⟨fun w hw hi => ?_, ih.spelled, ih.gaps⟩
    rcases List.infix_cons_iff.1 hi with hp | hi
    · -- a bound at the front of the gap would be read there
      have hs : c :: (ofPieces (pattern.pieces s)).first <+: c :: s := by
        conv => rhs; rw [← source_ofPieces s]
        exact List.prefix_append (c :: _) _
      have hread := isSome_readWord?.2 (hp.trans (hs.map foldCase))
      rw [readBound?_eq_none_iff.1 hnone w hw] at hread
      cases hread
    · exact ih.first w hw hi

end Cut

/-! ## Edits -/

/-- What is done with a stretch of a text. -/
inductive Edit where
  | keep (s : Text)
  /-- A marker starts an item with line breaks in front of its text and behind it. -/
  | item (lead body trail : Text)

namespace Edit

def before : Edit → Text
  | keep s => s
  | item lead body trail => markerText ++ (lead ++ (body ++ trail))

def after : Edit → Text
  | keep s => s
  | item _ body _ => "<li>".toList ++ (body ++ "</li>".toList)

def isItem : Edit → Bool
  | keep _ => false
  | item _ _ _ => true

end Edit

/-- The edits of bounds with the gaps behind them. A marker with a bound after it starts an item,
and of its gap all line breaks at the ends are dropped. -/
inductive Edits : List (Bound × Text) → List Edit → Prop where
  | nil : Edits [] []
  | last (b : Bound) (gap : Text) : Edits [(b, gap)] [.keep (b.source ++ gap)]
  | listEnd {e gap : Text} {x : Bound × Text} {xs : List (Bound × Text)} {es : List Edit} :
      Edits (x :: xs) es → Edits ((.listEnd e, gap) :: x :: xs) (.keep (e ++ gap) :: es)
  | item {lead body trail : Text} {x : Bound × Text} {xs : List (Bound × Text)} {es : List Edit} :
      Breaks lead → Breaks trail → body.trimBreaks = body → Edits (x :: xs) es →
        Edits ((.marker, lead ++ (body ++ trail)) :: x :: xs) (.item lead body trail :: es)

theorem exists_edits (xs : List (Bound × Text)) : ∃ es, Edits xs es := by
  induction xs with
  | nil => exact ⟨[], .nil⟩
  | cons x xs ih =>
    obtain ⟨b, gap⟩ := x
    cases xs with
    | nil => exact ⟨_, .last b gap⟩
    | cons y ys =>
      obtain ⟨es, hes⟩ := ih
      cases b with
      | listEnd e => exact ⟨_, .listEnd hes⟩
      | marker =>
        obtain ⟨p, q, hp, hq, hgap⟩ := gap.trimBreaks_append
        rw [hgap, List.append_assoc]
        exact ⟨_, .item hp hq gap.trimBreaks_trimBreaks hes⟩

section

variable {xs : List (Bound × Text)} {es : List Edit}

theorem Edits.before (h : Edits xs es) :
    es.flatMap Edit.before = xs.flatMap fun x => x.1.source ++ x.2 := by
  induction h with
  | nil => rfl
  | last b gap => rfl
  | listEnd _ ih => rw [List.flatMap_cons, ih]; rfl
  | item _ _ _ _ ih => rw [List.flatMap_cons, ih]; rfl

/-- The splitter makes the edits. -/
theorem write_edits (h : Edits xs es) :
    write (xs.flatMap fun x => .found x.1 :: x.2.map .plain) = es.flatMap Edit.after := by
  have hplain : ∀ gap : Text, write (gap.map .plain) = gap := by
    intro gap
    have hwrite := write_plain gap []
    rwa [List.append_nil, write, List.append_nil] at hwrite
  induction h with
  | nil => rw [List.flatMap_nil, write, List.flatMap_nil]
  | last b gap =>
    rw [List.flatMap_singleton, List.flatMap_singleton]
    cases b with
    | listEnd e =>
      rw [write, hplain]
      rfl
    | marker =>
      have hup : upToBound? (gap.map .plain) = none := by
        have hnone := upToBound?_plain gap []
        rwa [List.append_nil] at hnone
      rw [write_marker_of_none hup, hplain]
      rfl
  | listEnd _ ih =>
    rw [List.flatMap_cons, List.cons_append, write, write_plain, ih, List.flatMap_cons, Edit.after,
      List.append_assoc]
  | @item lead body trail x xs es hlead htrail hbody _ ih =>
    have hup : upToBound? ((lead ++ (body ++ trail)).map .plain ++
        (x :: xs).flatMap fun x => .found x.1 :: x.2.map .plain) = some (lead ++ (body ++ trail),
          (x :: xs).flatMap fun x => .found x.1 :: x.2.map .plain) := by
      rw [upToBound?_plain]
      simp [upToBound?]
    rw [List.flatMap_cons, List.cons_append, write_marker_of_some hup, ih, List.flatMap_cons,
      element, hlead.trimBreaks_append htrail hbody, Rule.between, Edit.after]
    simp only [List.append_assoc]

/-- Each marker in front of the last bound starts an item. -/
theorem Edits.countP_isItem (h : Edits xs es) :
    es.countP Edit.isItem = (xs.map Prod.fst).dropLast.count .marker := by
  induction h with
  | nil => rfl
  | last b gap => rfl
  | listEnd _ ih => simpa [Edit.isItem] using ih
  | item _ _ _ _ ih =>
    rw [List.countP_cons_of_pos rfl, ih]
    simp

/-! ## The bounds afterwards -/

theorem bare_iff {s : Text} : Bare s ↔ ∀ w ∈ boundWords, occurrences foldCase w s = 0 := by
  have hne : ∀ w ∈ boundWords, w ≠ [] := by decide
  exact forall₂_congr fun w hw => (occurrences_eq_zero (hne w hw)).symm

theorem Bare.of_infix {s t : Text} (h : Bare s) (ht : t <:+: s) : Bare t :=
  fun w hw hi => h w hw (hi.trans (ht.map foldCase))

/-- The markup of an item makes no bound with what stands around it. -/
theorem Bare.between {x y c : Text} (hx : Bare x) (hy : Bare y)
    (hc : c ∈ ["<li>".toList, "</li>".toList]) : Bare (x ++ (c ++ y)) := by
  have hclear : ∀ c ∈ ["<li>".toList, "</li>".toList], ∀ w ∈ boundWords,
      (avoids foldCase w c && clashesAll foldCase c w.tail) = true := by decide
  rw [bare_iff] at hx hy ⊢
  intro w hw
  rw [occurrences_seam (.of_clashes (hclear c hc w hw)), hx w hw, hy w hw]

theorem Edits.cut_after (h : Edits xs es) (hspelled : ∀ x ∈ xs, x.1.Spelled)
    (hgaps : ∀ x ∈ xs, Bare x.2) :
    ∃ d : Cut, d.source = es.flatMap Edit.after ∧
      d.bounds = (xs.map Prod.fst).dropLast.filter (· ≠ .marker) ++
        (xs.map Prod.fst).getLast?.toList ∧
      (∀ x, Bare x → Bare (x ++ d.first)) ∧
      (∀ x ∈ d.rest, x.1.Spelled) ∧ ∀ x ∈ d.rest, Bare x.2 := by
  induction h with
  | nil => exact ⟨⟨[], []⟩, rfl, rfl, fun x hx => by simpa using hx, nofun, nofun⟩
  | last b gap =>
    refine ⟨⟨[], [(b, gap)]⟩, ?_, rfl, fun x hx => by simpa using hx, hspelled, hgaps⟩
    simp [Cut.source, Edit.after]
  | @listEnd e gap x xs es _ ih =>
    obtain ⟨he, hspelled⟩ := List.forall_mem_cons.1 hspelled
    obtain ⟨hgap, hgaps⟩ := List.forall_mem_cons.1 hgaps
    obtain ⟨d, hsource, hbounds, hfirst, hs, hg⟩ := ih hspelled hgaps
    -- a marker that has become an item bounds nothing any more, so its text joins the gap
    refine ⟨⟨[], (.listEnd e, gap ++ d.first) :: d.rest⟩, ?_, ?_, fun x hx => by simpa using hx,
      List.forall_mem_cons.2 ⟨he, hs⟩, List.forall_mem_cons.2 ⟨hfirst gap hgap, hg⟩⟩
    · rw [List.flatMap_cons, ← hsource]
      simp [Cut.source, Edit.after, Bound.source]
    · simpa [Cut.bounds] using hbounds
  | @item lead body trail x xs es hlead htrail hbody _ ih =>
    obtain ⟨-, hspelled⟩ := List.forall_mem_cons.1 hspelled
    obtain ⟨hgap, hgaps⟩ := List.forall_mem_cons.1 hgaps
    obtain ⟨d, hsource, hbounds, hfirst, hs, hg⟩ := ih hspelled hgaps
    have hbody : Bare body := hgap.of_infix ⟨lead, trail, List.append_assoc ..⟩
    have hnil : Bare [] := hbody.of_infix List.nil_infix
    refine ⟨⟨"<li>".toList ++ (body ++ ("</li>".toList ++ d.first)), d.rest⟩, ?_, ?_,
      fun x hx => ?_, hs, hg⟩
    · rw [List.flatMap_cons, ← hsource]
      simp [Cut.source, Edit.after]
    · simpa [Cut.bounds] using hbounds
    · exact hx.between (hbody.between (hfirst [] hnil) (by simp)) (by simp)

/-! ## The markup of items -/

theorem Edits.follows (h : Edits xs es) (hspelled : ∀ x ∈ xs, x.1.Spelled) :
    Follows (es.flatMap Edit.before) ∧ Follows (es.flatMap Edit.after) := by
  refine ⟨h.before ▸ Cut.follows_rest hspelled, ?_⟩
  cases h with
  | nil => nofun
  | last b gap =>
    rw [List.flatMap_singleton]
    exact (List.forall_mem_cons.1 hspelled).1.follows gap
  | @listEnd e gap x xs es _ =>
    rw [List.flatMap_cons, Edit.after, List.append_assoc]
    exact (List.forall_mem_cons.1 hspelled).1.follows _
  | item _ _ _ _ =>
    rintro c ⟨⟩
    exact .inr rfl

theorem occurrences_append_of_follows {w : Text} (hw : w ∈ ["<li>".toList, "</li>".toList])
    {y : Text} (hy : Follows y) (x : Text) :
    occurrences id w (x ++ y) = occurrences id w x + occurrences id w y := by
  have hnot : ∀ w ∈ ["<li>".toList, "</li>".toList], '[' ∉ w.tail ∧ '<' ∉ w.tail := by decide
  refine occurrences_append_of_head (fun c hc => ?_) x
  rcases hy c hc with rfl | rfl
  · exact (hnot w hw).1
  · exact (hnot w hw).2

theorem skips_breaks_item {p w : Text} (hp : Breaks p) (hw : w ∈ ["<li>".toList, "</li>".toList]) :
    Skips (readWord? id w) p ∧ ∀ c ∈ p.head?, id c ∉ w.tail := by
  have hone : ∀ w ∈ ["<li>".toList, "</li>".toList],
      avoids id w lineBreak = true ∧ avoids id w ['\n'] = true ∧ avoids id w ['\r'] = true ∧
        '<' ∉ w.tail ∧ '\n' ∉ w.tail ∧ '\r' ∉ w.tail := by decide
  obtain ⟨h1, h2, h3, h4, h5, h6⟩ := hone w hw
  induction hp with
  | nil => exact ⟨trivial, nofun⟩
  | markup _ ih => exact ⟨(skips_of_avoids h1).append ih.1, by rintro c ⟨⟩; exact h4⟩
  | lineFeed _ ih => exact ⟨(skips_of_avoids h2).append ih.1, by rintro c ⟨⟩; exact h5⟩
  | carriageReturn _ ih => exact ⟨(skips_of_avoids h3).append ih.1, by rintro c ⟨⟩; exact h6⟩

theorem occurrences_item {w : Text} (hw : w ∈ ["<li>".toList, "</li>".toList]) (body y : Text) :
    occurrences id w ("<li>".toList ++ (body ++ ("</li>".toList ++ y))) =
      occurrences id w body + occurrences id w y + 1 := by
  simp only [List.mem_cons, List.not_mem_nil, or_false] at hw
  rcases hw with rfl | rfl
  · have hself : Skips (readWord? id "<li>".toList) "li>".toList := skips_of_avoids (by decide)
    have hclose : Clear id "<li>".toList "</li>".toList := .of_clashes (by decide)
    calc occurrences id "<li>".toList ("<li>".toList ++ (body ++ ("</li>".toList ++ y)))
        = occurrences id "<li>".toList (body ++ ("</li>".toList ++ y)) + 1 :=
          occurrences_word_append (List.map_id _) hself _
      _ = _ := by rw [occurrences_seam hclose]
  · have hself : Skips (readWord? id "</li>".toList) "/li>".toList := skips_of_avoids (by decide)
    have hopen : Skips (readWord? id "</li>".toList) "<li>".toList := skips_of_avoids (by decide)
    have hstops : Stops id "</li>".toList "/li>".toList := stops_of_clashesAll (by decide)
    calc occurrences id "</li>".toList ("<li>".toList ++ (body ++ ("</li>".toList ++ y)))
        = occurrences id "</li>".toList body +
            occurrences id "</li>".toList ("</li>".toList ++ y) := by
          rw [occurrences_append_of_skips hopen, occurrences_append_of_stops hstops]
      _ = occurrences id "</li>".toList body + (occurrences id "</li>".toList y + 1) :=
          congrArg _ (occurrences_word_append (List.map_id _) hself y)
      _ = _ := (Nat.add_assoc ..).symm

theorem Edits.occurrences_after (h : Edits xs es) (hspelled : ∀ x ∈ xs, x.1.Spelled) {w : Text}
    (hw : w ∈ ["<li>".toList, "</li>".toList]) :
    occurrences id w (es.flatMap Edit.after) =
      occurrences id w (es.flatMap Edit.before) + es.countP Edit.isItem := by
  have hmarkers : ∀ w ∈ ["<li>".toList, "</li>".toList], avoids id w markerText = true := by decide
  induction h with
  | nil => rfl
  | last b gap => rfl
  | listEnd h ih =>
    have hspelled := (List.forall_mem_cons.1 hspelled).2
    obtain ⟨hbefore, hafter⟩ := h.follows hspelled
    rw [List.flatMap_cons, List.flatMap_cons, occurrences_append_of_follows hw hbefore,
      occurrences_append_of_follows hw hafter, ih hspelled,
      List.countP_cons_of_neg (by simp [Edit.isItem]), ← Nat.add_assoc]
    rfl
  | @item lead body trail x xs es hlead htrail _ h ih =>
    have hspelled := (List.forall_mem_cons.1 hspelled).2
    obtain ⟨hbefore, -⟩ := h.follows hspelled
    obtain ⟨hlead, -⟩ := skips_breaks_item hlead hw
    obtain ⟨htrail, hhead⟩ := skips_breaks_item htrail hw
    have hmarker : Skips (readWord? id w) markerText := skips_of_avoids (hmarkers w hw)
    have hsource :
        occurrences id w (Edit.before (.item lead body trail) ++ es.flatMap Edit.before) =
          occurrences id w body + occurrences id w (es.flatMap Edit.before) := by
      rw [occurrences_append_of_follows hw hbefore, Edit.before,
        occurrences_append_of_skips hmarker, occurrences_append_of_skips hlead,
        occurrences_append_of_head hhead, ← List.append_nil trail,
        occurrences_append_of_skips htrail]
      rfl
    have hitem : occurrences id w (Edit.after (.item lead body trail) ++ es.flatMap Edit.after) =
        occurrences id w body + occurrences id w (es.flatMap Edit.after) + 1 := by
      rw [Edit.after, List.append_assoc, List.append_assoc, occurrences_item hw]
    rw [List.flatMap_cons, List.flatMap_cons, hsource, hitem, ih hspelled,
      List.countP_cons_of_pos rfl]
    omega

theorem Edits.bare_body (h : Edits xs es) (hgaps : ∀ x ∈ xs, Bare x.2) {lead body trail : Text}
    (hmem : .item lead body trail ∈ es) : Bare body := by
  induction h with
  | nil => cases hmem
  | last b gap => simp at hmem
  | listEnd _ ih =>
    rcases List.mem_cons.1 hmem with hmem | hmem
    · cases hmem
    · exact ih (List.forall_mem_cons.1 hgaps).2 hmem
  | item _ _ _ _ ih =>
    obtain ⟨hgap, hgaps⟩ := List.forall_mem_cons.1 hgaps
    rcases List.mem_cons.1 hmem with hmem | hmem
    · cases hmem
      exact hgap.of_infix ⟨lead, trail, List.append_assoc ..⟩
    · exact ih hgaps hmem

end

/-- Every text has an exact cut, and splitting makes the edits of its bounds. -/
theorem exists_split (s : Text) : ∃ (c : Cut) (es : List Edit), c.Exact ∧ c.source = s ∧
    Edits c.rest es ∧ c.first ++ es.flatMap Edit.before = s ∧
      c.first ++ es.flatMap Edit.after = split s := by
  have hsource : (Cut.ofPieces (pattern.pieces s)).source = s := Cut.source_ofPieces s
  have hexact : (Cut.ofPieces (pattern.pieces s)).Exact := Cut.exact_ofPieces s
  generalize Cut.ofPieces (pattern.pieces s) = c at hsource hexact
  obtain ⟨es, hes⟩ := exists_edits c.rest
  refine ⟨c, es, hexact, hsource, hes, ?_, ?_⟩
  · rw [hes.before]
    exact hsource
  · rw [split, ← hsource, hexact.pieces, Cut.pieces, write_plain, write_edits hes]

/-- Splitting a text makes one edit for each of its bounds and loses nothing else. -/
theorem split_edits (s : Text) :
    ∃ (c : Cut) (es : List Edit),
      (c.Exact ∧ c.source = s ∧ ∀ d : Cut, d.Exact → d.source = s → d = c) ∧
      Edits c.rest es ∧
      c.first ++ es.flatMap Edit.before = s ∧
      c.first ++ es.flatMap Edit.after = split s ∧
      es.countP Edit.isItem = c.bounds.dropLast.count .marker ∧
      (∀ w ∈ ["<li>".toList, "</li>".toList],
        occurrences id w (split s) = occurrences id w s + es.countP Edit.isItem) ∧
      (∀ lead body trail, .item lead body trail ∈ es → Bare body) ∧
      ∃ d : Cut, d.Exact ∧ d.source = split s ∧
        d.bounds = c.bounds.dropLast.filter (· ≠ .marker) ++ c.bounds.getLast?.toList := by
  obtain ⟨c, es, hexact, hsource, hes, hbefore, hafter⟩ := exists_split s
  have hunique : ∀ d : Cut, d.Exact → d.source = s → d = c := by
    intro d hd hds
    rw [← Cut.ofPieces_pieces d, ← hd.pieces, hds, ← hsource, hexact.pieces, Cut.ofPieces_pieces]
  have hitems : ∀ w ∈ ["<li>".toList, "</li>".toList],
      occurrences id w (split s) = occurrences id w s + es.countP Edit.isItem := by
    intro w hw
    obtain ⟨hfollows, hfollows'⟩ := hes.follows hexact.spelled
    rw [← hafter, ← hbefore, occurrences_append_of_follows hw hfollows,
      occurrences_append_of_follows hw hfollows', hes.occurrences_after hexact.spelled hw,
      Nat.add_assoc]
  obtain ⟨d, hd, hbounds, hfirst, hspelled, hgaps⟩ := hes.cut_after hexact.spelled hexact.gaps
  refine ⟨c, es, ⟨hexact, hsource, hunique⟩, hes, hbefore, hafter, hes.countP_isItem, hitems,
    fun _ _ _ => hes.bare_body hexact.gaps, ⟨c.first ++ d.first, d.rest⟩,
    ⟨hfirst _ hexact.first, hspelled, hgaps⟩, ?_, hbounds⟩
  rw [← hafter, ← hd]
  exact List.append_assoc ..

end BBCode.Item
