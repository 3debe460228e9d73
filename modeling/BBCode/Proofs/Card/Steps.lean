import BBCode.Document
import BBCode.Proofs.Autolink.Spots
import BBCode.Proofs.Box.Forest
import BBCode.Proofs.Card.Rules
import BBCode.Proofs.Guard.Bodies
import BBCode.Proofs.Item.Edits
import BBCode.Proofs.Text.Decimal

/-!
# BBCode.Proofs.Card.Steps

What the steps of a render do to the numbers of hover cards. Every step but two puts markup that is
clear of them around parts that it captures, each at most once; so it can lose a number, but not
double one. The two are links to themselves, which write their address twice, and the links to
profiles, which make the numbers. In front of those two no text holds the word that the numbers
start with, and that is kept by every step, the links to themselves included.

* `absent_early`: the steps in front of the hover cards make no word for them.
* `safe_lists`: splitting lists into items takes each item out once.
* `safe_late`: the steps behind the cards double no number.
-/

namespace BBCode.Card

/-! ## The marks -/

/-- The word that all numbers start with, where there is to be none. -/
def absent : Mark where
  word := Html.cardPrefix
  mem_words := List.mem_cons_self
  tail := []
  Done _ := False
  Bars _ := True
  done_append _ h := h
  done_left _ h := h
  tail_left h := h.elim
  bars _ _ := trivial

theorem holds_absent {s : Text} : absent.Holds s ↔ ¬ Html.cardPrefix <:+: s := by
  constructor
  · rintro h ⟨a, b, rfl⟩
    exact h b ⟨a, (List.append_assoc ..).symm⟩
  · exact fun h => (Mark.of_not_isInfix h).1

theorem count_absent {s : Text} (h : absent.Holds s) : absent.count s = 0 :=
  (Mark.of_not_isInfix (holds_absent.1 h)).2

theorem absent_of_isInfix {s t : Text} (h : absent.Holds s) (ht : t <:+: s) : absent.Holds t :=
  holds_absent.2 fun hi => holds_absent.1 h (hi.trans ht)

/-- The number `k` behind one of the words. -/
def numbered {w : Text} (hw : w ∈ numberWords) (k : Nat) : Mark where
  word := w
  mem_words := List.mem_cons_of_mem _ hw
  tail := decimal k ++ ['"']
  Done v := ∃ ds r, (∀ d ∈ ds, d.isDigit = true) ∧ v = ds ++ '"' :: r
  Bars c := c.isDigit = false ∧ c ≠ '"'
  done_append := by
    rintro v z ⟨ds, r, hds, rfl⟩
    exact ⟨ds, r ++ z, hds, by simp⟩
  done_left := by
    rintro v z c ⟨hdigit, hquote⟩ ⟨ds, r, hds, h⟩
    -- `v` ends among the digits or behind them; only a digit or the mark can follow the digits
    rcases List.append_eq_append_iff.1 h with ⟨y, rfl, hy⟩ | ⟨y, rfl, hy⟩
    · cases y with
      | nil => exact absurd (List.cons.inj hy).1 hquote
      | cons d y =>
        have hd : d.isDigit = true := hds d (by simp)
        rw [← (List.cons.inj hy).1, hdigit] at hd
        cases hd
    · cases y with
      | nil => exact absurd (List.cons.inj hy).1.symm hquote
      | cons d y => exact ⟨ds, y, hds, by rw [(List.cons.inj hy).1]⟩
  tail_left := by
    rintro v z ⟨ds, r, hds, rfl⟩ ⟨t, ht⟩
    have hquote : ∀ {x : Text}, (∀ d ∈ x, d.isDigit = true) → '"' ∉ x := by
      intro x hx hmem
      exact absurd (hx _ hmem) (by decide)
    rw [List.append_assoc, List.append_assoc] at ht
    obtain ⟨hk, -⟩ := append_cons_inj (hquote fun d hd => isDigit_of_mem_decimal hd) (hquote hds) ht
    exact ⟨r, by rw [hk]; simp⟩
  bars hdigit hquote := ⟨hdigit, hquote⟩

/-! ## The steps in front of the cards -/

section

variable {o : Options}

theorem absent_stage {s : Stage} (hs : s ∈ [Stage.lineBreaks, .formatting, .color, .specials,
    .quotes, .inlineCode, .layout]) : absent.Safe (s.apply o) := by
  refine Mark.Safe.foldl ?_
  simp only [List.mem_cons, List.not_mem_nil, or_false] at hs
  rcases hs with rfl | rfl | rfl | rfl | rfl | rfl | rfl
  all_goals simp only [Stage.rules, List.mem_cons, List.not_mem_nil, or_false]
  · rintro r (rfl | rfl | rfl)
    all_goals exact Mark.safe_respell (fun _ _ => trivial) (by decide)
  · rintro r (rfl | rfl | rfl | rfl | rfl)
    all_goals exact Mark.safe_between (by decide)
  · rintro r rfl
    exact Mark.safe_valued ⟨_, rfl, trivial⟩ fun p b hp hb =>
      ⟨_, Nat.le_refl _, .joined hp hb (by decide)⟩
  · rintro r rfl
    exact Mark.safe_between (by decide)
  · rintro r (rfl | rfl)
    · exact Mark.safe_bare fun b hb => Mark.Wedge.between_trim hb (by decide)
    · refine Mark.safe_valued ⟨_, rfl, trivial⟩ fun p b hp hb => ?_
      obtain ⟨htrim, hle⟩ := Mark.spares_trimBreaks b hb
      exact ⟨_, Nat.add_le_add_left hle _, .joined hp htrim (by decide)⟩
  · rintro r rfl
    refine Mark.safe_pair (fun _ hv => absurd hv (Option.not_mem_none _)) fun a _ hb => ?_
    unfold Stage.inlineCodeSpan
    split
    · exact .inl rfl
    · exact .inr ⟨_, Nat.le_add_left .., .between hb (by decide)⟩
  · rintro r rfl
    exact Mark.safe_between (by decide)

theorem absent_size : absent.Safe (Step.size.apply o) := by
  intro x
  show absent.Spares x.1 (((Rule.size? o.allowedSizes).map fun r => r.apply o x).getD x).1
  unfold Rule.size?
  split
  · exact .refl x.1
  · exact Mark.safe_valued (o := o) ⟨_, rfl, trivial⟩ (fun p b hp hb =>
      ⟨_, Nat.le_refl _, .joined hp hb (by decide)⟩) x

theorem absent_title {k : BoxKind} {t : Tag} {title : Text} (h : k.title? t = some title)
    (ht : absent.Holds t.source) : absent.Holds title := by
  rcases Box.title_cases h with rfl | ⟨name, rfl⟩
  · exact .fixed (by decide)
  · exact absent_of_isInfix ht ⟨'[' :: name ++ ['='], [']'], by simp [Tag.source]⟩

theorem absent_id (kind title : Text) (n : Nat) : absent.Holds (WidgetId.make kind title n) := by
  have hq : 'q' ∉ "box-0123456789abcdef".toList := by decide
  exact holds_absent.2 fun hi => hq (WidgetId.mem_make (hi.subset (by decide)))

/-- A widget with no number in its title and its body has none. -/
theorem absent_widget {title body id : Text} (ht : absent.Holds title) (hb : absent.Holds body)
    (hid : absent.Holds id) (expanded : Bool) :
    ∃ n, absent.Wedge (Html.widget title body id expanded) n := by
  have hopen : absent.Holds (Html.openClass expanded) := by
    cases expanded
    · exact .nil
    · exact .fixed (by decide)
  have hflag : absent.Holds (Html.flagText expanded) := by
    cases expanded <;> exact .fixed (by decide)
  have hdisplay : absent.Holds (Html.displayValue expanded) := by
    cases expanded <;> exact .fixed (by decide)
  unfold Html.widget Html.widgetShell
  exact ⟨_, .part (.part (.part (.part (.part (.part (.part (.part (.literal (by decide)) hopen
    (.literal (by decide))) hid (.literal (by decide))) hid (.literal (by decide))) hflag
    (.literal (by decide))) hid (.literal (by decide))) ht (.literal (by decide))) hdisplay
    (.literal (by decide))) hb (.literal (by decide))⟩

/-- The titles, the bodies and what stands around the boxes are parts of one text without the word,
and a widget keeps them apart. -/
theorem absent_write {k : BoxKind} {nested : Bool} (f : Box.Forest k nested) (flag : Text → Bool)
    (earlier : List Text) (x z : Text)
    (h : absent.Holds (x ++ (f.tags.flatMap Tag.source ++ z))) :
    absent.Holds (x ++ (f.write (Box.Forest.shown flag) earlier ++ z)) := by
  induction f generalizing earlier x z with
  | nil => exact h
  | literal t hopen hclose rest ih =>
    rw [Box.Forest.tags, List.flatMap_cons, List.append_assoc, ← List.append_assoc x] at h
    rw [Box.Forest.write, List.append_assoc, ← List.append_assoc x]
    exact ih earlier (x ++ t.source) z h
  | box opening title hopen inside closing hclose rest ih1 ih2 =>
    simp only [Box.Forest.tags, List.cons_append, List.flatMap_cons, List.flatMap_append,
      List.append_assoc] at h
    have htitle : absent.Holds title :=
      absent_title hopen (absent_of_isInfix h ⟨x, _, List.append_assoc ..⟩)
    have hinside : absent.Holds (inside.write (Box.Forest.shown flag) (earlier ++ [title])) := by
      have hpart : inside.tags.flatMap Tag.source <:+: x ++ (opening.source ++
          (inside.tags.flatMap Tag.source ++
            (closing.source ++ (rest.tags.flatMap Tag.source ++ z)))) :=
        ⟨x ++ opening.source, closing.source ++ (rest.tags.flatMap Tag.source ++ z), by simp⟩
      have hwrite := ih1 (earlier ++ [title]) [] [] (by simpa using absent_of_isInfix h hpart)
      simpa using hwrite
    have hrest := ih2 (earlier ++ title :: inside.titles) [] z
      (absent_of_isInfix h ⟨x ++ (opening.source ++ (inside.tags.flatMap Tag.source ++
        closing.source)), [], by simp⟩)
    obtain ⟨n, hwidget⟩ := absent_widget htitle (Mark.spares_trimBreaks _ hinside).1
      (absent_id _ _ _) (flag (Box.idAfter k earlier title))
    rw [Box.Forest.write, List.append_assoc]
    exact (hwidget.seam (absent_of_isInfix h (List.prefix_append x _).isInfix) hrest).1

theorem absent_boxes (k : BoxKind) : absent.Safe (Box.resolve o k) := by
  intro x hx
  have hsource : (Box.forest k x.1).tags.flatMap Tag.source ++
      (Box.stopped k x.1).flatMap Tag.source = x.1 := by
    rw [← List.flatMap_append, Box.tags_forest, Tag.flatMap_source_scan]
  have hholds : absent.Holds (Box.resolve o k x).1 := by
    rw [← hsource] at hx
    rw [(Box.resolve_forest o k x).1]
    exact absent_write (Box.forest k x.1) _ _ [] _ hx
  rw [count_absent hx, count_absent hholds]
  exact ⟨hholds, Nat.le_refl 0⟩

theorem wedge_link {T : Mark} {x y : Text} (hx : T.Holds x) (hy : T.Holds y) :
    T.Wedge (Html.link x y) (T.count x + T.count y) := by
  have hlink : Html.link x y =
      Rule.between "<a href=\"" "\" target=\"_blank\" rel=\"noopener noreferrer\">" x ++
        Rule.between "" "</a>" y := by
    have hnil : "".toList = [] := rfl
    unfold Html.link Rule.between
    rw [hnil, List.nil_append, List.append_assoc _ y]
  rw [hlink]
  exact .joined hx hy (by decide)

/-- In front of the cards, links copy only texts without a number. -/
theorem absent_linkRules {r : Rule}
    (hr : r ∈ Stage.linksAndMedia.rules.takeWhile fun r => r.name ≠ "profile") :
    absent.Safe (r.apply o) := by
  have hrules : (Stage.linksAndMedia.rules.takeWhile fun r => r.name ≠ "profile") =
      [.bare "url" "url" Html.anchor, .valued "url-titled" "url" .any Html.link] := rfl
  rw [hrules, List.mem_cons, List.mem_singleton] at hr
  rcases hr with rfl | rfl
  · refine Mark.safe_bare fun b hb => ⟨_, ?_, wedge_link hb hb⟩
    rw [count_absent hb]
  · exact Mark.safe_valued ⟨_, rfl, trivial⟩ fun p b hp hb => ⟨_, Nat.le_refl _, wedge_link hp hb⟩

theorem absent_early {s : Step}
    (hs : s ∈ Step.pipeline.takeWhile fun r => r ≠ .rules .linksAndMedia) :
    absent.Safe (s.apply o) := by
  have hsteps : (Step.pipeline.takeWhile fun r => r ≠ .rules .linksAndMedia) =
      Step.pipeline.take 10 := rfl
  rw [hsteps] at hs
  simp only [Step.pipeline, List.take, List.mem_cons, List.not_mem_nil, or_false] at hs
  rcases hs with rfl | rfl | rfl | rfl | rfl | rfl | rfl | rfl | rfl | rfl
  · exact absent_stage (s := .lineBreaks) (by simp)
  · exact absent_stage (s := .formatting) (by simp)
  · exact absent_stage (s := .color) (by simp)
  · exact absent_size
  · exact absent_stage (s := .specials) (by simp)
  · exact absent_boxes .named
  · exact absent_boxes .spoiler
  · exact absent_stage (s := .quotes) (by simp)
  · exact absent_stage (s := .inlineCode) (by simp)
  · exact absent_stage (s := .layout) (by simp)

end

/-! ## The steps behind the cards -/

section

variable {T : Mark} {o : Options}

theorem bars_bracket : T.Bars ']' := T.bars (by decide) (by decide)

/-- The rules for what is embedded. -/
theorem safe_mediaRules {r : Rule}
    (hr : r ∈ (Stage.linksAndMedia.rules.dropWhile fun r => r.name ≠ "profile").tail) :
    T.Safe (r.apply o) := by
  have hrules : (Stage.linksAndMedia.rules.dropWhile fun r => r.name ≠ "profile").tail =
      Stage.linksAndMedia.rules.drop 3 := rfl
  rw [hrules] at hr
  simp only [Stage.rules, List.drop, List.mem_cons, List.not_mem_nil, or_false] at hr
  rcases hr with rfl | rfl | rfl | rfl
  · exact Mark.safe_between (by decide)
  · exact Mark.safe_valued ⟨_, rfl, bars_bracket⟩ fun p b hp hb =>
      ⟨_, Nat.le_of_eq (Nat.add_comm ..), .joined hb hp (by decide)⟩
  · exact Mark.safe_between (by decide)
  · exact Mark.safe_bare fun b hb => ⟨_, Nat.le_refl _, .between hb (by decide)⟩

theorem safe_stage {s : Stage} (hs : s ∈ [Stage.trailing, .collapseBreaks]) :
    T.Safe (s.apply o) := by
  refine Mark.Safe.foldl ?_
  simp only [List.mem_cons, List.not_mem_nil, or_false] at hs
  rcases hs with rfl | rfl
  all_goals simp only [Stage.rules, List.mem_cons, List.not_mem_nil, or_false]
  · rintro r (rfl | rfl | rfl)
    · exact Mark.safe_valued ⟨_, rfl, bars_bracket⟩ fun p b hp hb =>
        ⟨_, Nat.le_refl _, .joined hp hb (by decide)⟩
    · exact Mark.safe_between (by decide)
    · exact Mark.safe_bare fun b hb => Mark.Wedge.between_trim hb (by decide)
  · rintro r (rfl | rfl)
    all_goals exact Mark.safe_dropBreakAfter (by decide)

/-! ## Lists -/

open Item

theorem barred_follows {s : Text} (h : Follows s) : T.Barred s := by
  intro c hc
  rcases h c hc with rfl | rfl
  · exact T.bars (by decide) (by decide)
  · exact T.bars (by decide) (by decide)

/-- The edits that make items keep what stands around bounds apart. -/
theorem spares_edits {xs : List (Bound × Text)} {es : List Edit} (h : Edits xs es)
    (hspelled : ∀ x ∈ xs, x.1.Spelled) (x : Text) :
    T.Spares (x ++ es.flatMap Edit.before) (x ++ es.flatMap Edit.after) := by
  induction h generalizing x with
  | nil => exact .refl _
  | last b gap => exact .refl _
  | @listEnd e gap y ys es _ ih =>
    have hrest := ih (List.forall_mem_cons.1 hspelled).2 (x ++ (e ++ gap))
    simpa [Edit.before, Edit.after] using hrest
  | @item lead body trail y ys es hlead htrail _ h ih =>
    have hspelled := (List.forall_mem_cons.1 hspelled).2
    have hbefore : Edit.before (.item lead body trail) ++ es.flatMap Edit.before =
        markerText ++ lead ++ (body ++ (trail ++ es.flatMap Edit.before)) := by
      simp [Edit.before]
    have hafter : Edit.after (.item lead body trail) = Rule.between "<li>" "</li>" body :=
      (List.append_assoc ..).symm
    rw [List.flatMap_cons, List.flatMap_cons, hbefore, hafter]
    have hrest : T.Barred (trail ++ es.flatMap Edit.before) :=
      (Mark.barred_breaks htrail).append (barred_follows (h.follows hspelled).1)
    have hinner := List.suffix_append (markerText ++ lead)
      (body ++ (trail ++ es.flatMap Edit.before))
    have htail := List.suffix_append trail (es.flatMap Edit.before)
    have htrail := List.suffix_append body (trail ++ es.flatMap Edit.before)
    intro hs
    have hbody : T.Holds body :=
      (hs.of_suffix (hinner.trans (List.suffix_append x _))).left hrest
    have hitem : T.Wedge (Rule.between "<li>" "</li>" body) (T.count body) :=
      .between hbody (by decide)
    have hbar : T.Barred (markerText ++ lead ++ (body ++ (trail ++ es.flatMap Edit.before))) :=
      Mark.barred_cons (by decide) (by decide) _
    refine Mark.Spares.swap hbar
      (htail.trans (htrail.trans hinner)) hitem ?_ (ih hspelled []) x hs
    have h1 := Mark.count_suffix (T := T) hinner
    have h2 := T.add_count_le body (trail ++ es.flatMap Edit.before)
    have h3 := Mark.count_suffix (T := T) htail
    omega

theorem spares_split (s : Text) : T.Spares s (split s) := by
  obtain ⟨c, es, hexact, -, hes, hbefore, hafter⟩ := exists_split s
  have hspares := spares_edits (T := T) hes hexact.spelled c.first
  rwa [hbefore, hafter] at hspares

theorem safe_lists : T.Safe (Item.resolve o) := by
  have hrules : T.Safe fun x => Rule.applyAll o Item.rules x := by
    refine Mark.Safe.foldl ?_
    simp only [Item.rules, List.mem_cons, List.not_mem_nil, or_false]
    rintro r (rfl | rfl)
    · refine Mark.safe_valued ⟨_, rfl, bars_bracket⟩ fun p b _ hb => ?_
      obtain ⟨n, hn, hz⟩ : ∃ n ≤ T.count b, T.Wedge (orderedList p b) n :=
        Mark.Wedge.between_trim hb (by decide)
      exact ⟨n, Nat.le_trans hn (Nat.le_add_left ..), hz⟩
    · exact Mark.safe_bare fun b hb => Mark.Wedge.between_trim hb (by decide)
  exact fun x => (hrules x).trans (spares_split _)

/-! ## URLs -/

theorem not_digit_of_foldCase {c : Char} (h : foldCase c = 'h') : c.isDigit = false := by
  have hall : ∀ d ∈ "0123456789".toList, foldCase d ≠ 'h' := by decide
  exact Bool.eq_false_iff.2 fun hc => hall c (mem_digits hc) h

/-- Where a URL starts, no number goes on. -/
theorem barred_url {s u r : Text} (h : Autolink.readUrl? s = some (u, r)) : T.Barred s := by
  rintro c hc
  obtain ⟨t, rfl⟩ := List.head?_eq_some_iff.1 hc
  have hfold : foldCase c = 'h' := by
    refine Classical.byContradiction fun hne => ?_
    rw [Autolink.readUrl?_cons_of_ne hne] at h
    cases h
  refine T.bars (not_digit_of_foldCase hfold) ?_
  rintro rfl
  exact absurd hfold (by decide)

/-- A URL has no quotation mark in it, so no number stands in it, and it may be written twice. -/
theorem safe_links (hw : T.word ∈ numberWords) :
    T.Safe fun x => (Autolink.autolink x.1, x.2) := by
  have hquote : ∀ w ∈ numberWords, '"' ∈ w := by decide
  intro x
  refine Mark.spares_substitute fun {t a r} _ hread => ?_
  change Autolink.readSpot? t = some (a, r) at hread
  have hsource := (Autolink.readSpot?_source hread).1
  unfold Autolink.readSpot? at hread
  split at hread
  · cases hread
    exact .same hsource (Nat.le_refl 0)
  · simp only [Option.map_eq_some_iff, Prod.mk.injEq] at hread
    obtain ⟨⟨u, q⟩, hu, rfl, rfl⟩ := hread
    obtain ⟨hurl, rfl, -⟩ := Autolink.readUrl?_eq_some.1 hu
    have hfree : ¬ T.word <:+: u := fun hi =>
      hurl.ne (by decide) (hi.subset (hquote T.word hw)) rfl
    obtain ⟨hholds, hzero⟩ := Mark.of_not_isInfix hfree
    refine .of_wedge (barred_url hu) (List.suffix_append u q) (wedge_link hholds hholds) ?_
    rw [hzero, Nat.zero_add]
    exact Mark.count_suffix (List.suffix_append u q)

theorem safe_late (hw : T.word ∈ numberWords) {s : Step}
    (hs : s ∈ [Step.lists, .rules .trailing, .rules .collapseBreaks, .links]) :
    T.Safe (s.apply o) := by
  simp only [List.mem_cons, List.not_mem_nil, or_false] at hs
  rcases hs with rfl | rfl | rfl | rfl
  · exact safe_lists
  · exact safe_stage (s := .trailing) (by simp)
  · exact safe_stage (s := .collapseBreaks) (by simp)
  · exact safe_links hw

end

end BBCode.Card
