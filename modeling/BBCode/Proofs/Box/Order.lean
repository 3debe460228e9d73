import BBCode.Proofs.Box.Weave

/-!
# BBCode.Proofs.Box.Order

Named boxes and spoiler boxes in either order. Resolving the boxes of a kind replaces cells of a
weave: the tags of that kind that pair up become the two ends of rendered boxes. Which ones do is a
function of the tags of that kind, so two passes for two kinds do not see each other, however their
boxes nest or cross. They meet in the runs of text that lose line breaks at both ends, where the
order makes no difference either.

* `write_pass_tags`: a pass writes what the walk over the forest writes.
* `resolve_fst`: `resolve` is a pass over the weave of the text.
* `write_pass_dissolve`: a pass over scanned HTML is a pass over the weave it was written from.
* `pass_comm`: two passes for two kinds.
* `resolve_comm`: named boxes first or spoiler boxes first.
-/

namespace BBCode.Box

variable {o : Options} {j k : BoxKind} {flag flag' : Text → Bool}

/-! ## Passes -/

def Cell.mark? (k : BoxKind) : Cell → Option Mark
  | .tag t => Box.mark? k t
  | _ => none

/-- The tags of a kind of boxes among some cells. -/
def marksOf (k : BoxKind) (w : List (Cell × Text)) : List Mark := w.filterMap fun e => e.1.mark? k

/-- Where a pass for a kind of boxes is: how many are open, and the titles of all before. -/
structure Place where
  depth : Nat
  titles : List Text

/-- Passes a cell that has the tags `ms` behind it. There is no place behind the hard stop. -/
def next (k : BoxKind) (flag : Text → Bool) (ms : List Mark) :
    Option Place → Cell → Cell × Option Place
  | none, c => (c, none)
  | some p, c =>
    match c.mark? k with
    | some (.opening title) =>
      if closesAt 0 ms then
        (.opened title (idAfter k p.titles title) (flag (idAfter k p.titles title)),
          some ⟨p.depth + 1, p.titles ++ [title]⟩)
      else (c, none)
    | some .closing =>
      if p.depth = 0 then (c, some p) else (.closed, some ⟨p.depth - 1, p.titles⟩)
    | none => (c, some p)

/-- Renders the boxes of a kind in a weave, where widgets have the flags `flag`. -/
def pass (k : BoxKind) (flag : Text → Bool) : Option Place → List (Cell × Text) → List (Cell × Text)
  | _, [] => []
  | p?, (c, s) :: w =>
    let x := next k flag (marksOf k w) p? c
    (x.1, s) :: pass k flag x.2 w

variable {p? : Option Place} {ms : List Mark} {c : Cell}

theorem next_of_mark?_eq_none (h : c.mark? k = none) : next k flag ms p? c = (c, p?) := by
  cases p? with
  | none => rfl
  | some p => rw [next, h]

theorem pass_none (w : List (Cell × Text)) : pass k flag none w = w := by
  induction w with
  | nil => rfl
  | cons e w ih => exact congrArg (e :: ·) ih

/-! ## What a pass writes -/

theorem marks_cons (t : Tag) (ts : List Tag) :
    marks k (t :: ts) = (mark? k t).toList ++ marks k ts := by
  rw [marks, List.filterMap_cons]
  cases mark? k t <;> rfl

theorem marksOf_cons (c : Cell) (s : Text) (w : List (Cell × Text)) :
    marksOf k ((c, s) :: w) = (c.mark? k).toList ++ marksOf k w := by
  rw [marksOf, List.filterMap_cons]
  cases c.mark? k <;> rfl

theorem marksOf_ofTags (ts : List Tag) : marksOf k (ofTags ts).cells = marks k ts := by
  induction ts with
  | nil => rfl
  | cons t ts ih =>
    cases ht : t.isText with
    | true =>
      cases t with
      | text run => rw [ofTags, ih, marks_literal (by cases k <;> rfl) rfl]
      | opening n p => cases ht
      | closing n => cases ht
    | false =>
      rw [ofTags_cons ht, marksOf_cons, marks_cons, ih]
      rfl

theorem isText_of_title? {t : Tag} {title : Text} (h : k.title? t = some title) :
    t.isText = false := by
  cases t with
  | text run => cases k <;> cases h
  | opening n p => rfl
  | closing n => rfl

theorem isText_of_closes {t : Tag} {n : Text} (h : t.closes n = true) : t.isText = false := by
  cases t <;> first | rfl | cases h

theorem next_opening {t : Tag} {title : Text} (h : k.title? t = some title) (p : Place) :
    next k flag ms (some p) (.tag t) =
      if closesAt 0 ms then
        (.opened title (idAfter k p.titles title) (flag (idAfter k p.titles title)),
          some ⟨p.depth + 1, p.titles ++ [title]⟩)
      else (.tag t, none) := by
  have hmark : Cell.mark? k (.tag t) = some (.opening title) := by rw [Cell.mark?, mark?, h]
  rw [next, hmark]

theorem next_closing {t : Tag} (h : t.closes k.tag = true) (p : Place) :
    next k flag ms (some p) (.tag t) =
      if p.depth = 0 then (.tag t, some p) else (.closed, some ⟨p.depth - 1, p.titles⟩) := by
  have hmark : Cell.mark? k (.tag t) = some .closing := by
    rw [Cell.mark?, mark?, Forest.title?_of_closes h, h]
    rfl
  rw [next, hmark]

/-- A closing tag outside of all boxes stays like any other literal. -/
theorem next_literal {t : Tag} {nested : Bool} (hopen : k.title? t = none)
    (hclose : nested = true → t.closes k.tag = false) {p : Place}
    (hp : nested = false → p.depth = 0) :
    next k flag ms (some p) (.tag t) = (.tag t, some p) := by
  cases hc : t.closes k.tag with
  | false =>
    refine next_of_mark?_eq_none ?_
    rw [Cell.mark?, mark?, hopen, hc]
    rfl
  | true =>
    cases nested with
    | true => rw [hclose rfl] at hc; cases hc
    | false => rw [next_closing hc, if_pos (hp rfl)]

theorem firm_shown (opening closing : Tag) (titles : List Text) (title body : Text) :
    Text.Firm (Forest.shown flag opening closing title (idAfter k titles title) body) := by
  have hid : ∀ c ∈ idAfter k titles title, isQuiet c = true := fun c hc =>
    Widget.isQuiet_of_mem_make hc
  rw [Forest.shown, widget_eq_ends]
  exact (firm_openingHtml hid _ _).between firm_closingHtml _

/-- A pass writes the boxes of a forest the way the walk over the forest does. -/
theorem write_pass_tags {nested : Bool} (f : Forest k nested) (inside : Bool) (x : Text)
    (us : List Tag) (p : Place) (hp : nested = false → p.depth = 0) :
    write inside (x ++ (ofTags (f.tags ++ us)).front)
        (pass k flag (some p) (ofTags (f.tags ++ us)).cells) =
      write inside (x ++ (f.write (Forest.shown flag) p.titles ++ (ofTags us).front))
        (pass k flag (some ⟨p.depth, p.titles ++ f.titles⟩) (ofTags us).cells) := by
  induction f generalizing inside x us p with
  | nil => simp [Forest.tags, Forest.write, Forest.titles]
  | literal t hopen hclose rest ih =>
    cases ht : t.isText with
    | true =>
      cases t with
      | text run =>
        have hrest := ih inside (x ++ run) us p hp
        simp only [List.append_assoc] at hrest
        simp only [Forest.tags, Forest.write, Forest.titles, List.cons_append, ofTags,
          Tag.source, List.append_assoc]
        exact hrest
      | opening n q => cases ht
      | closing n => cases ht
    | false =>
      have hrest := ih false [] us p hp
      rw [List.nil_append, List.nil_append] at hrest
      simp only [Forest.tags, Forest.write, Forest.titles, List.cons_append, ofTags_cons ht,
        List.append_assoc]
      rw [write_firm (Tag.firm_source ht), ← hrest, pass, next_literal hopen hclose hp, write,
        List.append_nil]
      rfl
  | box opening title hopen body closing hclose rest ih1 ih2 =>
    obtain ⟨depth, titles⟩ := p
    have hcloses : closesAt 0 (marksOf k (ofTags (body.tags ++ closing :: (rest.tags ++ us))).cells)
        = true := by
      rw [marksOf_ofTags]
      exact closes_iff.1 ⟨body, closing, _, hclose, rfl⟩
    have hrest := ih2 false [] us ⟨depth, titles ++ title :: body.titles⟩ hp
    have hbody : write true (ofTags (body.tags ++ closing :: (rest.tags ++ us))).front
        (pass k flag (some ⟨depth + 1, titles ++ [title]⟩)
          (ofTags (body.tags ++ closing :: (rest.tags ++ us))).cells) =
        (body.write (Forest.shown flag) (titles ++ [title])).trimBreaks ++
          (closingHtml ++ write false (ofTags (rest.tags ++ us)).front
            (pass k flag (some ⟨depth, titles ++ title :: body.titles⟩)
              (ofTags (rest.tags ++ us)).cells)) := by
      have h := ih1 true [] (closing :: (rest.tags ++ us)) ⟨depth + 1, titles ++ [title]⟩
        (fun h => by cases h)
      rw [ofTags_cons (isText_of_closes hclose), pass, next_closing hclose,
        if_neg (Nat.succ_ne_zero _), write] at h
      simp only [List.nil_append, List.append_nil, List.append_assoc, List.cons_append] at h
      exact h
    simp only [Forest.tags, Forest.write, Forest.titles, List.cons_append, List.append_assoc,
      ofTags_cons (isText_of_title? hopen), List.nil_append] at hrest ⊢
    rw [write_firm (firm_shown opening closing titles title _), ← hrest, pass, next_opening hopen,
      if_pos hcloses, write, List.append_nil, Forest.shown, widget_eq_ends, List.append_assoc,
      List.append_assoc, ← hbody]
    rfl

/-! ## The resolver -/

/-- `resolve` is a pass over the weave of the text. -/
theorem resolve_fst (o : Options) (k : BoxKind) (x : Text × Tally) :
    (resolve o k x).1 =
      write false (weave x.1).front
        (pass k (x.2.widgets.flag o.expandByDefault) (some ⟨0, earlier k x.2⟩)
          (weave x.1).cells) := by
  have hpass := @write_pass_tags k (x.2.widgets.flag o.expandByDefault) _ (forest k x.1) false []
    (stopped k x.1) ⟨0, earlier k x.2⟩ fun _ => rfl
  rw [List.nil_append, List.nil_append, tags_forest] at hpass
  rw [(resolve_forest o k x).1, weave, hpass]
  rcases stopped_cases k x.1 with h | ⟨opening, after, h, hopen, hnever⟩
  · rw [h]
    rfl
  · obtain ⟨title, htitle⟩ := Option.isSome_iff_exists.1 hopen
    have hcloses : ¬ closesAt 0 (marksOf k (ofTags after).cells) = true := by
      rw [marksOf_ofTags]
      exact mt closes_iff.2 hnever
    rw [h, ← write_ofTags, ofTags_cons (isText_of_title? htitle), pass, next_opening htitle,
      if_neg hcloses, pass_none]

/-! ## Passes over scanned HTML -/

theorem marksOf_dissolve (inside : Bool) (s : Text) (w : List (Cell × Text)) :
    marksOf k (dissolve inside s w).cells = marksOf k w := by
  induction w generalizing inside s with
  | nil => rfl
  | cons e w ih =>
    obtain ⟨c, s'⟩ := e
    cases c with
    | tag t =>
      rw [dissolve, marksOf_cons, marksOf_cons]
      exact congrArg _ (ih false s')
    | opened title id expanded => exact ih true s'
    | closed => exact ih false s'

/-- A pass over scanned HTML writes what a pass over the weave writes from which the HTML was
written. -/
theorem write_pass_dissolve {s : Text} {w : List (Cell × Text)} (h : Legible s w)
    (p? : Option Place) (inside inside' : Bool) :
    write inside' (dissolve inside s w).front (pass k flag p? (dissolve inside s w).cells) =
      write (inside || inside') s (pass k flag p? w) := by
  induction w generalizing s p? inside inside' with
  | nil => exact trimIf_trimIf inside inside' false false s
  | cons e w ih =>
    obtain ⟨c, s'⟩ := e
    obtain ⟨-, hc, hw⟩ := h
    have hmark : c.mark? k = none →
        write inside' (trimIf inside c.closes s ++ (c.source ++ (dissolve c.opens s' w).front))
            (pass k flag p? (dissolve c.opens s' w).cells) =
          write (inside || inside') s (pass k flag p? ((c, s') :: w)) := by
      intro hnone
      rw [write_firm hc.firm, ih hw, trimIf_trimIf, pass, next_of_mark?_eq_none hnone, write,
        Bool.or_false, Bool.or_false]
    cases c with
    | tag t =>
      show write inside' (trimIf inside false s)
        (pass k flag p? ((.tag t, (dissolve false s' w).front) :: (dissolve false s' w).cells)) = _
      rw [pass, marksOf_dissolve, write, ih hw, trimIf_trimIf, pass, write, Bool.false_or,
        Bool.false_or]
    | opened title id expanded => exact hmark rfl
    | closed => exact hmark rfl

/-! ## Two kinds -/

theorem mark?_of_ne (hjk : j ≠ k) {t : Tag} {m : Mark} (h : mark? k t = some m) :
    mark? j t = none := by
  cases t with
  | text run => cases k <;> cases h
  | opening n p => cases p <;> cases k <;> cases j <;> first | rfl | cases h | exact absurd rfl hjk
  | closing n =>
    -- no tag closes boxes of both kinds
    have hclose : ∀ i : BoxKind, mark? i (.closing n) =
        if n.map Char.toLower = i.tag.map Char.toLower then some .closing else none := by
      intro i
      rw [mark?, i.title?_closing]
      simp [Tag.closes, Text.sameAscii]
    have htags : j.tag.map Char.toLower ≠ k.tag.map Char.toLower := by
      cases j <;> cases k <;> first | exact absurd rfl hjk | decide
    rw [hclose, Option.ite_none_right_eq_some] at h
    rw [hclose, if_neg fun hj => htags (hj.symm.trans h.1)]

theorem Cell.mark?_of_ne (hjk : j ≠ k) {m : Mark} (h : c.mark? k = some m) : c.mark? j = none := by
  cases c with
  | tag t => exact Box.mark?_of_ne hjk h
  | opened title id expanded => rfl
  | closed => rfl

/-- A pass for one kind leaves the tags of the other kind. -/
theorem mark?_next (hjk : j ≠ k) : (next k flag ms p? c).1.mark? j = c.mark? j := by
  cases hmark : c.mark? k with
  | none => rw [next_of_mark?_eq_none hmark]
  | some m =>
    cases p? with
    | none => rfl
    | some p =>
      rw [Cell.mark?_of_ne hjk hmark, next, hmark]
      cases m with
      | opening title =>
        simp only
        split
        · rfl
        · exact Cell.mark?_of_ne hjk hmark
      | closing =>
        simp only
        split
        · exact Cell.mark?_of_ne hjk hmark
        · rfl

theorem marksOf_pass (hjk : j ≠ k) (p? : Option Place) (w : List (Cell × Text)) :
    marksOf j (pass k flag p? w) = marksOf j w := by
  induction w generalizing p? with
  | nil => rfl
  | cons e w ih =>
    obtain ⟨c, s⟩ := e
    rw [pass, marksOf_cons, marksOf_cons, ih, mark?_next hjk]

/-- Passes for two kinds of boxes do not see each other. -/
theorem pass_comm (hjk : j ≠ k) (p? q? : Option Place) (w : List (Cell × Text)) :
    pass j flag' q? (pass k flag p? w) = pass k flag p? (pass j flag' q? w) := by
  induction w generalizing p? q? with
  | nil => rfl
  | cons e w ih =>
    obtain ⟨c, s⟩ := e
    simp only [pass, marksOf_pass hjk, marksOf_pass hjk.symm]
    cases hmark : c.mark? k with
    | none =>
      have hfirst : next k flag (marksOf k w) p? c = (c, p?) := next_of_mark?_eq_none hmark
      have hsecond : next k flag (marksOf k w) p? (next j flag' (marksOf j w) q? c).1 =
          ((next j flag' (marksOf j w) q? c).1, p?) :=
        next_of_mark?_eq_none ((mark?_next hjk.symm).trans hmark)
      rw [hfirst, hsecond, ih]
    | some m =>
      have hnone := Cell.mark?_of_ne hjk hmark
      have hfirst : next j flag' (marksOf j w) q? c = (c, q?) := next_of_mark?_eq_none hnone
      have hsecond : next j flag' (marksOf j w) q? (next k flag (marksOf k w) p? c).1 =
          ((next k flag (marksOf k w) p? c).1, q?) :=
        next_of_mark?_eq_none ((mark?_next hjk).trans hnone)
      rw [hfirst, hsecond, ih]

/-! ## What is left on the map -/

theorem openFrame_cards (title : Text) (t : Tally) : (openFrame o k title t).2.cards = t.cards := by
  cases k <;> rfl

theorem openFrame_widgets (title : Text) (t : Tally) :
    (openFrame o k title t).2.widgets =
      t.widgets.ensure (openFrame o k title t).1.id o.expandByDefault := by
  cases k <;> rfl

theorem openAll_cards (t : Tally) (titles : List Text) :
    (openAll o k t titles).2.cards = t.cards := by
  induction titles generalizing t with
  | nil => rfl
  | cons title titles ih => rw [openAll, ih, openFrame_cards]

/-- The widgets of the boxes are known afterwards, with the flags they were shown with. -/
theorem get?_openAll (t : Tally) (titles : List Text) (id : Text) :
    (openAll o k t titles).2.widgets.get? id =
      if id ∈ (openAll o k t titles).1.map Frame.id then
        some (t.widgets.flag o.expandByDefault id)
      else t.widgets.get? id := by
  induction titles generalizing t with
  | nil => rfl
  | cons title titles ih =>
    rw [openAll]
    simp only [List.map_cons, List.mem_cons, ih, openFrame_widgets, WidgetMap.flag_ensure,
      WidgetMap.get?_ensure]
    by_cases hfirst : id = (openFrame o k title t).1.id
    · simp [← hfirst, WidgetMap.flag]
    · simp [hfirst]

theorem ids_framesAfter (titles before : List Text) :
    (framesAfter k flag before titles).map Frame.id = idsAfter k before titles := by
  induction titles generalizing before with
  | nil => rfl
  | cons title titles ih => rw [framesAfter, List.map_cons, ih, idsAfter]

/-- What `resolve` leaves of a tally in which boxes with some titles were opened. -/
structure Resolved (o : Options) (k : BoxKind) (titles : List Text) (t u : Tally) : Prop extends
    Opened o k titles t u where
  cards : u.cards = t.cards
  get? : ∀ id, u.widgets.get? id =
    if id ∈ idsAfter k (earlier k t) titles then some (t.widgets.flag o.expandByDefault id)
    else t.widgets.get? id

theorem resolve_resolved (o : Options) (k : BoxKind) (s : Text) (t : Tally) :
    Resolved o k (forest k s).titles t (resolve o k (s, t)).2 := by
  obtain ⟨hframes, htally⟩ := handedOut_eq_openAll (o := o) (k := k) ({}, t) (forest k s).tags
  rw [handedOut_eq_framesAfter, ← Forest.titles_eq] at hframes
  have hresolve : (resolve o k (s, t)).2 = (openAll o k t (forest k s).titles).2 := by
    rw [Forest.titles_eq, ← htally]
    simp only [resolve, split_scan]
  refine ⟨(resolve_forest o k (s, t)).2, ?_, fun id => ?_⟩
  · rw [hresolve, openAll_cards]
  · rw [← Forest.titles_eq] at htally
    rw [hresolve, get?_openAll, ← hframes, ids_framesAfter]

/-! ## Either order -/

/-- Two tallies that a render cannot tell apart: in what order widgets were registered does not
matter. -/
structure SameTally (t u : Tally) : Prop where
  widgets : t.widgets = u.widgets
  titles : t.titles = u.titles
  spoilerboxes : t.spoilerboxes = u.spoilerboxes
  cards : t.cards = u.cards
  seen : t.seen.Perm u.seen

theorem sameTally_of_earlier {t u : Tally} (h : ∀ k, earlier k t = earlier k u)
    (hwidgets : t.widgets = u.widgets) (hcards : t.cards = u.cards) (hseen : t.seen.Perm u.seen) :
    SameTally t u where
  widgets := hwidgets
  titles := List.reverse_inj.1 (h .named)
  spoilerboxes := by
    have hlen := congrArg List.length (h .spoiler)
    simpa [earlier] using hlen
  cards := hcards
  seen := hseen

/-- Boxes of two kinds are counted in either order. -/
theorem Resolved.comm {xs ys : List Text} {t u v u' v' : Tally} (hjk : j ≠ k)
    (hu : Resolved o k xs t u) (hv : Resolved o j ys u v) (hu' : Resolved o j ys t u')
    (hv' : Resolved o k xs u' v') : SameTally v v' := by
  have hj : earlier j u = earlier j t := hu.other j hjk
  have hk : earlier k u' = earlier k t := hu'.other k hjk.symm
  refine sameTally_of_earlier (fun i => ?_) (WidgetMap.get?_ext fun id => ?_) ?_ ?_
  · by_cases hi : i = k
    · subst hi
      rw [hv.other i hjk.symm, hu.own, hv'.own, hk]
    · have hij : i = j := by cases i <;> cases j <;> cases k <;> simp_all
      subst hij
      rw [hv.own, hj, hv'.other i hjk, hu'.own]
  · rw [hv.get?, hu.get?, hv'.get?, hu'.get?, hj, hk, hu.flag, hu'.flag]
    split <;> split <;> rfl
  · rw [hv.cards, hu.cards, hv'.cards, hu'.cards]
  · rw [hv.seen, hu.seen, hv'.seen, hu'.seen, hj, hk]
    exact List.perm_append_comm_assoc _ _ _

theorem legible_next (hc : c.Legible)
    (ht : ∀ title, c.mark? k = some (.opening title) → '[' ∉ title) :
    (next k flag ms p? c).1.Legible := by
  cases p? with
  | none => exact hc
  | some p =>
    rw [next]
    split
    · rename_i title hmark
      split
      · exact .opened (ht title hmark) fun c hc => Widget.isQuiet_of_mem_make hc
      · exact hc
    · split
      · exact hc
      · exact .closed
    · exact hc

theorem legible_pass {s : Text} {w : List (Cell × Text)} (h : Legible s w)
    (ht : ∀ title, .opening title ∈ marksOf k w → '[' ∉ title) (p? : Option Place) :
    Legible s (pass k flag p? w) := by
  induction w generalizing s p? with
  | nil => exact h
  | cons e w ih =>
    obtain ⟨c, s'⟩ := e
    obtain ⟨hs, hc, hw⟩ := h
    rw [marksOf_cons] at ht
    refine ⟨hs, legible_next hc fun title hmark => ht title ?_,
      ih hw (fun title htitle => ht title ?_) _⟩
    · exact List.mem_append_left _ (by rw [hmark]; exact List.mem_cons_self)
    · exact List.mem_append_right _ htitle

/-- No title in an opening tag of a box holds an opening bracket. -/
def PlainTitles (s : Text) : Prop :=
  ∀ title ∈ (Tag.scan s).filterMap BoxKind.named.title?, '[' ∉ title

instance (s : Text) : Decidable (PlainTitles s) := inferInstanceAs (Decidable (∀ _ ∈ _, _))

theorem PlainTitles.not_mem {s : Text} (h : PlainTitles s) {title : Text}
    (ht : .opening title ∈ marksOf k (weave s).cells) : '[' ∉ title := by
  rw [weave, marksOf_ofTags] at ht
  obtain ⟨tag, htag, hmark⟩ := List.mem_filterMap.1 ht
  have htitle : k.title? tag = some title := by
    rw [mark?] at hmark
    split at hmark
    · rename_i title' htitle
      cases hmark
      exact htitle
    · split at hmark <;> cases hmark
  cases k with
  | named => exact h title (List.mem_filterMap.2 ⟨tag, htag, htitle⟩)
  | spoiler =>
    rw [title_spoiler htitle]
    decide

/-- What the boxes of one kind are rendered to is scanned as the weave it was written from. -/
theorem weave_resolve (o : Options) (k : BoxKind) {s : Text} (h : PlainTitles s) (t : Tally) :
    weave (resolve o k (s, t)).1 =
      dissolve false (weave s).front
        (pass k (t.widgets.flag o.expandByDefault) (some ⟨0, earlier k t⟩) (weave s).cells) := by
  rw [resolve_fst]
  exact weave_write (legible_pass (legible_weave s) (fun _ => h.not_mem) _) false

theorem titles_resolve (hjk : j ≠ k) {s : Text} (h : PlainTitles s) (t : Tally) :
    (forest j (resolve o k (s, t)).1).titles = (forest j s).titles := by
  have hmarks : ∀ x : Text, (forest j x).titles = titlesOf (marksOf j (weave x).cells) := by
    intro x
    rw [weave, marksOf_ofTags]
    exact pairedTitles_iff.1 (pairedTitles_forest j x)
  rw [hmarks, hmarks, weave_resolve o k h, marksOf_dissolve, marksOf_pass hjk]

theorem resolve_resolve_fst (hjk : j ≠ k) {s : Text} (h : PlainTitles s) (t : Tally) :
    (resolve o j (resolve o k (s, t))).1 =
      write false (weave s).front
        (pass j (t.widgets.flag o.expandByDefault) (some ⟨0, earlier j t⟩)
          (pass k (t.widgets.flag o.expandByDefault) (some ⟨0, earlier k t⟩) (weave s).cells)) := by
  have hopened := (resolve_forest o k (s, t)).2
  rw [resolve_fst, weave_resolve o k h, hopened.flag, hopened.other j hjk]
  exact write_pass_dissolve (legible_pass (legible_weave s) (fun _ => h.not_mem) _) _ false false

/-- Named boxes and spoiler boxes are independent: resolved in either order they give the same text,
counters and widgets, however they nest, cross, are left open or closed in vain. -/
theorem resolve_comm (o : Options) (s : Text) (t : Tally) (h : PlainTitles s) :
    (resolve o .spoiler (resolve o .named (s, t))).1 =
        (resolve o .named (resolve o .spoiler (s, t))).1 ∧
      SameTally (resolve o .spoiler (resolve o .named (s, t))).2
        (resolve o .named (resolve o .spoiler (s, t))).2 := by
  have hjk : BoxKind.spoiler ≠ .named := by decide
  have hnamed := titles_resolve (o := o) hjk.symm h t
  have hspoiler := titles_resolve (o := o) hjk h t
  constructor
  · rw [resolve_resolve_fst hjk h, resolve_resolve_fst hjk.symm h, pass_comm hjk]
  · have hlast := resolve_resolved o .spoiler (resolve o .named (s, t)).1
      (resolve o .named (s, t)).2
    have hlast' := resolve_resolved o .named (resolve o .spoiler (s, t)).1
      (resolve o .spoiler (s, t)).2
    rw [hspoiler] at hlast
    rw [hnamed] at hlast'
    exact (resolve_resolved o .named s t).comm hjk hlast (resolve_resolved o .spoiler s t) hlast'

/-- Boxes of the two kinds that cross, with line breaks at their ends, a stray closing tag in front
and a box behind that never closes. -/
theorem resolve_comm_crossing :
    let s := "[/box][box=a]\n[spoilerbox]\n[/box]<br>[/spoilerbox][box=b]".toList
    let t : Tally := { widgets := .empty }
    PlainTitles s ∧
      (resolve {} .spoiler (resolve {} .named (s, t))).1 =
          (resolve {} .named (resolve {} .spoiler (s, t))).1 ∧
        SameTally (resolve {} .spoiler (resolve {} .named (s, t))).2
          (resolve {} .named (resolve {} .spoiler (s, t))).2 := by
  have h : PlainTitles "[/box][box=a]\n[spoilerbox]\n[/box]<br>[/spoilerbox][box=b]".toList := by
    decide +kernel
  exact ⟨h, resolve_comm {} _ _ h⟩

end BBCode.Box
