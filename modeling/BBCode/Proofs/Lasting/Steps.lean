import BBCode.Proofs.Box.Forest
import BBCode.Proofs.Lasting.Pattern
import BBCode.Proofs.Template.Page

/-!
# BBCode.Proofs.Lasting.Steps

No step of a render breaks a lasting property. What a step writes is put together from parts of
the text that it reads and from HTML of its own, and it reads its parts without cutting a
placeholder.

* `TagPair.clean`, `Tag.clean_grammar`, `Item.clean_pattern`, `Autolink.clean_pattern`: everything
  that the steps look for is found in parts.
* `Keeps`: a step that does not break a property.
* `Keeps.stage`, `Keeps.boxes`, `Keeps.lists`, `Keeps.links`: every step is one.
* `Lasting.run`: and so are all steps together.
-/

namespace BBCode

open Guarded

/-! ## Pairs of tags -/

/-- A region whose parts have a property. -/
structure Region.All (P : Text → Prop) (r : Region) : Prop where
  opening : P r.opening
  param : P r.param
  body : P r.body
  closing : P r.closing

theorem Region.All.source {P : Text → Prop} (hP : Lasting P) {r : Region} (h : r.All P) :
    P r.source :=
  hP.append (hP.append h.opening h.body) h.closing

/-- The marks around a value keep clear of placeholders. -/
structure ValueForm.Apart (f : ValueForm) : Prop where
  before : Unreserved f.before
  after : Guarded.Apart id f.after

namespace ValueForm

theorem apart_any : any.Apart := ⟨by decide, .of_id (by decide) (by decide)⟩

theorem apart_filled : filled.Apart := ⟨by decide, .of_id (by decide) (by decide)⟩

theorem apart_quoted : quoted.Apart := ⟨by decide, .of_id (by decide) (by decide)⟩

theorem apart_oneOf (values : List Text) : (oneOf values).Apart :=
  ⟨(by decide : Unreserved ['=']), .of_id (p := ']') (v := []) (by decide) (by decide)⟩

end ValueForm

namespace TagPair

variable {P : Text → Prop} {t : TagPair}

theorem all_of_readOpening? (hP : Lasting P) (ht : Unreserved t.name)
    (hv : ∀ f, t.value = some f → f.Apart) {s o p r : Text} (hs : P s)
    (h : t.readOpening? s = some (o, p, r)) : P o ∧ P p ∧ P r := by
  unfold readOpening? at h
  split at h
  · simp only [Option.map_eq_some_iff, Prod.mk.injEq] at h
    obtain ⟨⟨a, q⟩, hq, rfl, rfl, rfl⟩ := h
    have hword : Guarded.Apart foldCase ('[' :: t.name ++ [']']) := .of_tag (ht.append (by decide))
    obtain ⟨ha, hrest⟩ := hword.readWord? hP hs hq
    exact ⟨ha, hP.nil, hrest⟩
  · rename_i f hf
    obtain ⟨hbefore, hafter⟩ := hv f hf
    have hword : Guarded.Apart foldCase ('[' :: t.name ++ f.before) := .of_tag (ht.append hbefore)
    split at h
    · cases h
    · rename_i head q hq
      obtain ⟨hhead, hrest⟩ := hword.readWord? hP hs hq
      split at h
      · cases h
      · rename_i value mark rest hn
        obtain ⟨hvalue, hmark, hrest⟩ := hafter.nearest? hP hrest hn
        split at h
        · cases h
          exact ⟨hP.append (hP.append hhead hvalue) hmark, hvalue, hrest⟩
        · cases h

theorem clean (hP : Lasting P) (ht : Unreserved t.name) (hv : ∀ f, t.value = some f → f.Apart) :
    Clean P (Region.All P) t.pattern where
  starts c hc s := by
    show t.readPair? (c :: s) = none
    have hbracket : ∀ d ∈ labelChars, foldCase d ≠ '[' := by decide
    exact readPair?_cons (hbracket c hc) s
  cuts {s a r} hs h := by
    have h : t.readPair? s = some (a, r) := h
    unfold readPair? at h
    split at h
    · cases h
    · rename_i o p q hq
      obtain ⟨ho, hp, hrest⟩ := all_of_readOpening? hP ht hv hs hq
      simp only [Option.map_eq_some_iff, Prod.mk.injEq] at h
      obtain ⟨⟨b, c, r'⟩, hn, rfl, rfl⟩ := h
      have hcloser : Guarded.Apart foldCase t.closer :=
        .of_tag (s := '/' :: t.name ++ [']']) (Unreserved.append (s := ['/']) (by decide)
          (ht.append (by decide)))
      obtain ⟨hb, hc, hr⟩ := hcloser.nearest? hP hrest hn
      exact ⟨⟨ho, hp, hb, hc⟩, hr⟩

end TagPair

/-! ## What is written -/

namespace Lasting

variable {P : Text → Prop} (hP : Lasting P) {x y : Text}

include hP

theorem number (n : Nat) : P (decimal n) := by
  have hall : ∀ d ∈ "0123456789".toList, isPrintable d = true := by decide
  exact hP.fixed (List.all_eq_true.2 fun c hc => hall c (mem_digits (isDigit_of_mem_decimal hc)))

theorem widgetId (kind title : Text) (n : Nat) : P (WidgetId.make kind title n) := by
  have hall : ∀ d ∈ "box-0123456789abcdef".toList, isPrintable d = true := by decide
  exact hP.fixed (List.all_eq_true.2 fun c hc => hall c (WidgetId.mem_make hc))

theorem link (hx : P x) (hy : P y) : P (Html.link x y) := by
  unfold Html.link
  exact hP.append (hP.append (hP.between hx (by decide)) hy) (hP.literal (by decide))

theorem profileLink {base : Text} (hbase : P base) (hx : P x) (hy : P y) (card : Nat) :
    P (Html.profileLink base x y card) := by
  have hcard : P (Html.cardPrefix ++ decimal card) :=
    hP.append (hP.literal (by decide)) (hP.number card)
  unfold Html.profileLink
  refine hP.append (hP.joined (hP.joined (hP.joined ?_ hy (by decide)) hcard (by decide)) hx
    (by decide)) (hP.literal (by decide))
  refine hP.joined (hP.joined ?_ hx (by decide)) hcard (by decide)
  exact hP.append (hP.append (hP.literal (by decide)) hbase) hx

theorem audioPlayer (hx : P x) : P (Html.audioPlayer x) := hP.between hx (by decide)

theorem inlineCodeSpan {r : Region} (h : r.All P) : P (Stage.inlineCodeSpan r) := by
  unfold Stage.inlineCodeSpan
  split
  · exact h.source hP
  · exact hP.between h.body (by decide)

theorem widget {title body id : Text} (ht : P title) (hb : P body) (hid : P id)
    (expanded : Bool) : P (Html.widget title body id expanded) := by
  have hopen : P (Html.openClass expanded) := by
    cases expanded
    · exact hP.nil
    · exact hP.literal (by decide)
  have hflag : P (Html.flagText expanded) := by cases expanded <;> exact hP.literal (by decide)
  have hdisplay : P (Html.displayValue expanded) := by
    cases expanded <;> exact hP.literal (by decide)
  unfold Html.widget Html.widgetShell
  refine hP.append (hP.joined (hP.joined ?_ hdisplay (by decide)) hb (by decide))
    (hP.literal (by decide))
  refine hP.joined (hP.joined (hP.joined ?_ hflag (by decide)) hid (by decide)) ht (by decide)
  refine hP.joined (hP.joined ?_ hid (by decide)) hid (by decide)
  exact hP.append (hP.literal (by decide)) hopen

end Lasting

/-! ## Steps -/

/-- A step that does not break a property. -/
def Keeps (P : Text → Prop) (F : Text × Tally → Text × Tally) : Prop :=
  ∀ x, P x.1 → P (F x).1

namespace Keeps

variable {P : Text → Prop} {o : Options}

theorem foldl {α : Type} {F : Text × Tally → α → Text × Tally} {as : List α}
    (h : ∀ a ∈ as, Keeps P fun x => F x a) : Keeps P fun x => as.foldl F x := by
  induction as with
  | nil => exact fun x hx => hx
  | cons a as ih =>
    obtain ⟨ha, has⟩ := List.forall_mem_cons.1 h
    exact fun x hx => ih has (F x a) (ha x hx)

variable (hP : Lasting P)

include hP

theorem replace {name : String} {p : Pattern Char Region} {G : Region → Prop} {f : Region → Text}
    (hp : Clean P G p) (hf : ∀ a, G a → P (f a)) :
    Keeps P ((Rule.mk name p (.replace f)).apply o) :=
  fun _ hx => hp.substitute hP hf hx

theorem numbered {name : String} {p : Pattern Char Region} {G : Region → Prop}
    {f : Options → Nat → Region → Text} (hp : Clean P G p) (hf : ∀ i a, G a → P (f o i a)) :
    Keeps P ((Rule.mk name p (.numbered f)).apply o) :=
  fun x hx => hp.fillFrom hP hf hx x.2.cards

theorem respell {name : String} {f : Char → Char} {w by_ : Text} {hne : w ≠ []}
    (hw : Apart f w) (h : by_.all isPrintable = true) :
    Keeps P ((Rule.respell name f w hne by_).apply o) :=
  replace hP ((Clean.word hP hw hne).map (H := fun _ => True) fun _ _ => trivial) fun _ _ =>
    hP.fixed h

theorem bare {name tag : String} {f : Text → Text} (ht : Unreserved tag.toList)
    (hf : ∀ b, P b → P (f b)) : Keeps P ((Rule.bare name tag f).apply o) :=
  replace hP (TagPair.clean (t := ⟨tag.toList, none⟩) hP ht fun _ h => by cases h) fun a ha =>
    hf a.body ha.body

theorem valued {name tag : String} {form : ValueForm} {f : Text → Text → Text}
    (ht : Unreserved tag.toList) (hform : form.Apart) (hf : ∀ p b, P p → P b → P (f p b)) :
    Keeps P ((Rule.valued name tag form f).apply o) :=
  replace hP (TagPair.clean (t := ⟨tag.toList, some form⟩) hP ht
    fun _ h => by cases h; exact hform) fun a ha => hf a.param a.body ha.param ha.body

theorem dropBreakAfter {name tag : String} (ht : Apart id tag.toList)
    (h : tag.toList.all isPrintable = true) :
    Keeps P ((Rule.dropBreakAfter name tag).apply o) :=
  replace hP ((Clean.tagBreak hP ht).map (H := fun _ => True) fun _ _ => trivial) fun _ _ =>
    hP.fixed h

/-! ## Stages -/

theorem stage (ho : P o.profileUrl) (s : Stage) : Keeps P (s.apply o) := by
  refine foldl ?_
  cases s
  all_goals simp only [Stage.rules, List.mem_cons, List.not_mem_nil, or_false]
  case lineBreaks =>
    rintro r (rfl | rfl | rfl)
    · exact respell hP (.of_id (by decide) (by decide)) (by decide)
    · exact respell hP (.of_id (by decide) (by decide)) (by decide)
    · exact respell hP (.of_tag (by decide)) (by decide)
  case formatting =>
    rintro r (rfl | rfl | rfl | rfl | rfl)
    all_goals exact bare hP (by decide) fun b hb => hP.between hb (by decide)
  case color =>
    rintro r rfl
    exact valued hP (by decide) ValueForm.apart_any fun p b hp hb =>
      hP.append (hP.between hp (by decide)) (hP.between hb (by decide))
  case specials =>
    rintro r rfl
    exact bare hP (by decide) fun b hb => hP.between hb (by decide)
  case quotes =>
    rintro r (rfl | rfl)
    · exact bare hP (by decide) fun b hb => hP.between (hP.trimBreaks hb) (by decide)
    · exact valued hP (by decide) ValueForm.apart_quoted fun p b hp hb =>
        hP.append (hP.between hp (by decide)) (hP.between (hP.trimBreaks hb) (by decide))
  case inlineCode =>
    rintro r rfl
    exact replace hP (TagPair.clean hP (by decide) fun _ h => by cases h) fun _ ha =>
      hP.inlineCodeSpan ha
  case layout =>
    rintro r rfl
    exact bare hP (by decide) fun b hb => hP.between hb (by decide)
  case linksAndMedia =>
    rintro r (rfl | rfl | rfl | rfl | rfl | rfl | rfl)
    · exact bare hP (by decide) fun b hb => hP.link hb hb
    · exact valued hP (by decide) ValueForm.apart_any fun p b hp hb => hP.link hp hb
    · exact numbered hP (TagPair.clean hP (by decide)
        fun _ h => by cases h; exact ValueForm.apart_any) fun i a ha =>
          hP.profileLink ho ha.param ha.body i
    · exact bare hP (by decide) fun b hb => hP.between hb (by decide)
    · exact valued hP (by decide) ValueForm.apart_any fun p b hp hb =>
        hP.append (hP.between hb (by decide)) (hP.between hp (by decide))
    · exact bare hP (by decide) fun b hb => hP.between hb (by decide)
    · exact bare hP (by decide) fun b hb => hP.audioPlayer hb
  case trailing =>
    rintro r (rfl | rfl | rfl)
    · exact valued hP (by decide) ValueForm.apart_any fun p b hp hb =>
        hP.append (hP.between hp (by decide)) (hP.between hb (by decide))
    · exact bare hP (by decide) fun b hb => hP.between hb (by decide)
    · exact bare hP (by decide) fun b hb => hP.between (hP.trimBreaks hb) (by decide)
  case collapseBreaks =>
    rintro r (rfl | rfl)
    all_goals exact dropBreakAfter hP (.of_id (by decide) (by decide)) (by decide)

theorem size : Keeps P (Step.size.apply o) := by
  intro x hx
  show P (((Rule.size? o.allowedSizes).map fun r => r.apply o x).getD x).1
  unfold Rule.size?
  split
  · exact hx
  · exact valued (o := o) hP (by decide) (ValueForm.apart_oneOf _)
      (fun p b hp hb => hP.append (hP.between hp (by decide)) (hP.between hb (by decide))) x hx

end Keeps

/-! ## Boxes -/

namespace Tag

/-- A tag whose parts have a property. -/
def All (P : Text → Prop) : Tag → Prop
  | opening name none => P name
  | opening name (some param) => P name ∧ P param
  | closing name => P name
  | text run => P run

variable {P : Text → Prop} (hP : Lasting P)

include hP

theorem All.source {t : Tag} (h : t.All P) : P t.source := by
  have hopen : P ['['] := hP.fixed (by decide)
  have hclose : P [']'] := hP.fixed (by decide)
  cases t with
  | opening name param =>
    cases param with
    | none => exact hP.append (hP.append hopen h) hclose
    | some param =>
      have hequals : P ['='] := hP.fixed (by decide)
      have hsource : (opening name (some param)).source =
          ['['] ++ name ++ ['='] ++ param ++ [']'] := by simp [Tag.source]
      rw [hsource]
      exact hP.append (hP.append (hP.append (hP.append hopen h.1) hequals) h.2) hclose
  | closing name =>
    have hslash : P ['[', '/'] := hP.fixed (by decide)
    exact hP.append (hP.append hslash h) hclose
  | text run => exact h

theorem all_nameOf {s : Text} (hs : P s) : P (nameOf s) ∧ P (afterName s) := by
  have hname : Unreserved (nameOf s) := unreserved_takeWhile (fun c hc => by
    simp only [isReserved, Bool.or_eq_true, decide_eq_true_eq] at hc
    rcases hc with rfl | rfl <;> decide) s
  rw [← nameOf_append_afterName s] at hs
  exact hP.split hname hs

theorem clean_grammar : Clean P (All P) grammar where
  starts c hc s := by
    refine readTag?_of_ne ?_ s
    rintro rfl
    revert hc
    decide
  cuts {s a r} hs h := by
    have hclose : Guarded.Apart id [']'] := .of_id (by decide) (by decide)
    have hequals : Guarded.Apart id ['='] := .of_id (by decide) (by decide)
    change readTag? s = some (a, r) at h
    unfold readTag? at h
    split at h
    · rename_i s
      obtain ⟨hname, hafter⟩ := all_nameOf hP (hP.split (s := ['[', '/']) (by decide) hs).2
      unfold readClosing? at h
      split at h
      · cases h
      · simp only [Option.map_eq_some_iff, Prod.mk.injEq] at h
        obtain ⟨x, hx, rfl, rfl⟩ := h
        exact ⟨hname, (hclose.readWord? hP hafter hx).2⟩
    · rename_i s _
      obtain ⟨hname, hafter⟩ := all_nameOf hP (hP.split (s := ['[']) (by decide) hs).2
      unfold readOpening? at h
      split at h
      · cases h
      · split at h
        · rename_i w q hq
          cases h
          exact ⟨hname, (hclose.readWord? hP hafter hq).2⟩
        · split at h
          · rename_i w q hq
            simp only [Option.map_eq_some_iff, Prod.mk.injEq] at h
            obtain ⟨⟨p, m, r'⟩, hx, rfl, rfl⟩ := h
            obtain ⟨hp, -, hr⟩ := hclose.nearest? hP (hequals.readWord? hP hafter hq).2 hx
            exact ⟨⟨hname, hp⟩, hr⟩
          · cases h
    · cases h

theorem all_joinText {s : Text} {ts : List Tag} (hs : P s) (hts : ∀ t ∈ ts, t.All P) :
    ∀ t ∈ joinText s ts, t.All P := by
  intro t ht
  unfold joinText at ht
  split at ht
  · rename_i run us
    rcases List.mem_cons.1 ht with rfl | ht
    · exact hP.append hs (hts (.text run) List.mem_cons_self)
    · exact hts t (List.mem_cons_of_mem _ ht)
  · rcases List.mem_cons.1 ht with rfl | ht
    · exact hs
    · exact hts t ht

theorem all_ofChars_plain {s : Text} {ps : List (Piece Char Tag)} (hs : P s)
    (hps : ∀ t ∈ ofChars ps, t.All P) : ∀ t ∈ ofChars (s.map .plain ++ ps), t.All P := by
  by_cases hnil : s = []
  · rw [hnil]
    exact hps
  · rw [ofChars_plain hnil]
    exact all_joinText hP hs hps

theorem all_scan {s : Text} (hs : P s) : ∀ t ∈ scan s, t.All P := by
  rw [scan_eq_ofChars]
  have hpieces := (clean_grammar hP).pieces hP hs
  generalize grammar.pieces s = ps at hpieces
  induction hpieces with
  | @plain s hs =>
    rw [← List.append_nil (s.map Piece.plain)]
    exact all_ofChars_plain hP hs (by simp [ofChars])
  | found hs ha _ ih => exact all_ofChars_plain hP hs (List.forall_mem_cons.2 ⟨ha, ih⟩)

theorem all_sources {ts : List Tag} (h : ∀ t ∈ ts, t.All P) : P (ts.flatMap source) := by
  induction ts with
  | nil => exact hP.nil
  | cons t ts ih =>
    obtain ⟨ht, hts⟩ := List.forall_mem_cons.1 h
    exact hP.append (ht.source hP) (ih hts)

end Tag

namespace Box

variable {P : Text → Prop} (hP : Lasting P) {k : BoxKind}

include hP

theorem title_of_all {t : Tag} {title : Text} (h : k.title? t = some title) (ht : t.All P) :
    P title := by
  rcases title_cases h with rfl | ⟨name, rfl⟩
  · exact hP.literal (by decide)
  · exact ht.2

theorem Forest.write_of_all {nested : Bool} (f : Forest k nested) (h : ∀ t ∈ f.tags, t.All P)
    (flag : Text → Bool) (earlier : List Text) : P (f.write (shown flag) earlier) := by
  induction f generalizing earlier with
  | nil => exact hP.nil
  | literal t hopen hclose rest ih =>
    obtain ⟨ht, hrest⟩ := List.forall_mem_cons.1 h
    exact hP.append (ht.source hP) (ih hrest earlier)
  | box opening title hopen inside closing hclose rest ih1 ih2 =>
    have htitle := title_of_all hP hopen (h opening (by simp [tags]))
    have hinside := ih1 (fun u hu => h u (by simp [tags, hu])) (earlier ++ [title])
    have hrest := ih2 (fun u hu => h u (by simp [tags, hu])) (earlier ++ title :: inside.titles)
    exact hP.append (hP.widget htitle (hP.trimBreaks hinside) (hP.widgetId _ _ _) _) hrest

end Box

theorem Keeps.boxes {P : Text → Prop} (hP : Lasting P) (o : Options) (k : BoxKind) :
    Keeps P (Box.resolve o k) := by
  intro x hx
  have htags := Tag.all_scan hP hx
  rw [← Box.tags_forest k x.1] at htags
  rw [(Box.resolve_forest o k x).1]
  refine hP.append (Box.Forest.write_of_all hP _ (fun t ht => ?_) _ _)
    (Tag.all_sources hP fun t ht => ?_)
  · exact htags t (List.mem_append_left _ ht)
  · exact htags t (List.mem_append_right _ ht)

/-! ## Lists -/

namespace Item

variable {P : Text → Prop} (hP : Lasting P)

include hP

theorem clean_pattern : Clean P (fun b => P b.source) pattern := by
  have hmarker : Guarded.Apart id markerText := .of_id (by decide) (by decide)
  have hordered : Guarded.Apart foldCase "</ol>".toList := .of_foldCase (by decide) (by decide)
  have hunordered : Guarded.Apart foldCase "</ul>".toList := .of_foldCase (by decide) (by decide)
  refine ⟨fun c hc s => ?_, fun {s a r} hs h => ?_⟩
  · show readBound? (c :: s) = none
    rw [readBound?, hmarker.readWord?_labelChars hc, hordered.readWord?_labelChars hc,
      hunordered.readWord?_labelChars hc]
    rfl
  · change readBound? s = some (a, r) at h
    unfold readBound? at h
    split at h
    · rename_i w q hq
      cases h
      exact ⟨hP.literal (by decide), (hmarker.readWord? hP hs hq).2⟩
    · simp only [Option.map_eq_some_iff, Prod.mk.injEq, Option.or_eq_some_iff] at h
      obtain ⟨x, hx, rfl, rfl⟩ := h
      rcases hx with hx | ⟨-, hx⟩
      · exact hordered.readWord? hP hs hx
      · exact hunordered.readWord? hP hs hx

/-- Writing pieces, also behind a bound that they are the rest of. -/
theorem write_of_pieces {ps : List (Piece Char Bound)}
    (h : PiecesOf P (fun b => P b.source) ps) :
    P (write ps) ∧ ∀ b : Bound, P b.source → P (write (.found b :: ps)) := by
  induction h with
  | @plain s hs =>
    have hwrite : write (s.map .plain) = s := by
      have hplain := write_plain s []
      rwa [List.append_nil, write, List.append_nil] at hplain
    have hup : upToBound? (s.map .plain) = none := by
      have hplain := upToBound?_plain s []
      rwa [List.append_nil, upToBound?, Option.map_none] at hplain
    refine ⟨by rwa [hwrite], fun b hb => ?_⟩
    cases b with
    | listEnd e =>
      rw [write, hwrite]
      exact hP.append hb hs
    | marker =>
      rw [write_marker_of_none hup, hwrite]
      exact hP.append hb hs
  | @found s a ps hs ha _ ih =>
    have hrest := ih.2 a ha
    have hall : P (write (s.map .plain ++ .found a :: ps)) := by
      rw [write_plain]
      exact hP.append hs hrest
    refine ⟨hall, fun b hb => ?_⟩
    cases b with
    | listEnd e =>
      rw [write]
      exact hP.append hb hall
    | marker =>
      have hup : upToBound? (s.map .plain ++ .found a :: ps) = some (s, .found a :: ps) := by
        rw [upToBound?_plain, upToBound?, Option.map_some, List.append_nil]
      rw [write_marker_of_some hup]
      exact hP.append (hP.between (hP.trimBreaks hs) (by decide)) hrest

end Item

theorem Keeps.lists {P : Text → Prop} (hP : Lasting P) (o : Options) :
    Keeps P (Item.resolve o) := by
  have hrules : Keeps P (Rule.applyAll o Item.rules) := by
    refine foldl ?_
    simp only [Item.rules, List.mem_cons, List.not_mem_nil, or_false]
    rintro r (rfl | rfl)
    · exact valued hP (by decide) ValueForm.apart_filled fun p b hp hb =>
        hP.between (hP.trimBreaks hb) (by decide)
    · exact bare hP (by decide) fun b hb => hP.between (hP.trimBreaks hb) (by decide)
  intro x hx
  exact (Item.write_of_pieces hP ((Item.clean_pattern hP).pieces hP (hrules x hx))).1

/-! ## Links -/

namespace Autolink

variable {P : Text → Prop} (hP : Lasting P)

theorem apart_https : Apart foldCase "https://".toList := .of_foldCase (by decide) (by decide)

theorem apart_http : Apart foldCase "http://".toList := .of_foldCase (by decide) (by decide)

theorem unreserved_urlChars (s : Text) : Unreserved (s.takeWhile isUrlChar) :=
  unreserved_takeWhile (fun c hc => by simp [isUrlChar, hc]) s

theorem readSpot?_labelChars {c : Char} (hc : c ∈ labelChars) (s : Text) :
    readSpot? (c :: s) = none := by
  have hopen : Apart foldCase "<a".toList := .of_foldCase (by decide) (by decide)
  have hvalue : ∀ d ∈ labelChars, d ≠ '"' ∧ d ≠ '=' := by decide
  have hanchor : readAnchor? (c :: s) = none := by rw [readAnchor?, hopen.readWord?_labelChars hc]
  have hattribute : readValue? (c :: s) = none := by simp [readValue?, hvalue c hc]
  have hurl : readUrl? (c :: s) = none := by
    rw [readUrl?, apart_https.readWord?_labelChars hc, apart_http.readWord?_labelChars hc]
    rfl
  rw [readSpot?, hanchor, hattribute, hurl]
  rfl

include hP

/-- A URL stops in front of a placeholder. -/
theorem all_of_readUrl? {s a r : Text} (hs : P s) (h : readUrl? s = some (a, r)) : P a ∧ P r := by
  unfold readUrl? at h
  split at h
  · cases h
  · rename_i scheme q hq
    have hscheme : P scheme ∧ P q := by
      rcases Option.or_eq_some_iff.1 hq with hq | ⟨-, hq⟩
      · exact apart_https.readWord? hP hs hq
      · exact apart_http.readWord? hP hs hq
    dsimp only at h
    split at h
    · cases h
    · cases h
      have hq := hscheme.2
      rw [← List.takeWhile_append_dropWhile (p := isUrlChar) (l := q)] at hq
      obtain ⟨hchars, hrest⟩ := hP.split (unreserved_urlChars q) hq
      exact ⟨hP.append hscheme.1 hchars, hrest⟩

theorem all_of_readAnchor? {s a r : Text} (hs : P s) (h : readAnchor? s = some (a, r)) :
    P a ∧ P r := by
  have hopen : Apart foldCase "<a".toList := .of_foldCase (by decide) (by decide)
  have hmark : Apart id ['>'] := .of_id (by decide) (by decide)
  have hclose : Apart foldCase "</a>".toList := .of_foldCase (by decide) (by decide)
  unfold readAnchor? at h
  split at h
  · cases h
  · rename_i head q hq
    obtain ⟨hhead, hq⟩ := hopen.readWord? hP hs hq
    split at h
    · cases h
    · split at h
      · cases h
      · rename_i attributes mark q' hn
        obtain ⟨hattributes, hmark, hq'⟩ := hmark.nearest? hP hq hn
        simp only [Option.map_eq_some_iff, Prod.mk.injEq] at h
        obtain ⟨⟨b, c, r'⟩, hx, rfl, rfl⟩ := h
        obtain ⟨hb, hc, hr⟩ := hclose.nearest? hP hq' hx
        have hfront := hP.append (hP.append hhead hattributes) hmark
        exact ⟨hP.append (hP.append hfront hb) hc, hr⟩

theorem all_of_readValue? {s a r : Text} (hs : P s) (h : readValue? s = some (a, r)) :
    P a ∧ P r := by
  unfold readValue? at h
  split at h
  · cases h
  · rename_i c s
    split at h
    · rename_i hc
      have hc : isPrintable c = true := by
        simp only [Bool.or_eq_true, decide_eq_true_eq] at hc
        rcases hc with rfl | rfl <;> decide
      simp only [Option.map_eq_some_iff, Prod.mk.injEq] at h
      obtain ⟨x, hx, rfl, rfl⟩ := h
      have hchar : [c].all isPrintable = true := by simp [hc]
      obtain ⟨hmark, hrest⟩ := hP.split (unreserved_of_isPrintable hchar) hs
      obtain ⟨ha, hr⟩ := all_of_readUrl? hP hrest hx
      exact ⟨hP.append hmark ha, hr⟩
    · cases h

theorem clean_pattern : Clean P (fun x => P x.source) pattern where
  starts c hc s := readSpot?_labelChars hc s
  cuts {s a r} hs h := by
    change readSpot? s = some (a, r) at h
    unfold readSpot? at h
    split at h
    · rename_i kept q hq
      cases h
      rcases Option.or_eq_some_iff.1 hq with hq | ⟨-, hq⟩
      · exact all_of_readAnchor? hP hs hq
      · exact all_of_readValue? hP hs hq
    · simp only [Option.map_eq_some_iff, Prod.mk.injEq] at h
      obtain ⟨x, hx, rfl, rfl⟩ := h
      exact all_of_readUrl? hP hs hx

end Autolink

theorem Keeps.links {P : Text → Prop} (hP : Lasting P) :
    Keeps P fun x => (Autolink.autolink x.1, x.2) := by
  intro x hx
  refine (Autolink.clean_pattern hP).substitute hP (fun a ha => ?_) hx
  cases a with
  | url s => exact hP.link ha ha
  | kept s => exact ha

/-! ## All steps -/

theorem Keeps.step {P : Text → Prop} (hP : Lasting P) {o : Options} (ho : P o.profileUrl)
    (s : Step) : Keeps P (s.apply o) := by
  cases s with
  | rules stage => exact Keeps.stage hP ho stage
  | size => exact Keeps.size hP
  | boxes k => exact Keeps.boxes hP o k
  | lists => exact Keeps.lists hP o
  | links => exact Keeps.links hP

/-- What a protected text has and the address of profiles has, the steps of a render leave. -/
theorem Lasting.run {P : Text → Prop} (hP : Lasting P) {o : Options} (ho : P o.profileUrl)
    {text : Text} (h : P text) (m : WidgetMap) : P (Page.run o text m).1 :=
  Keeps.foldl (fun s _ => Keeps.step hP ho s) (text, { widgets := m }) h

end BBCode
