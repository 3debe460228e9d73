import BBCode.Proofs.Unclosed.Boxes

/-!
# BBCode.Proofs.Box.Titles

What the ids of boxes depend on. A box gets its id when its opening tag is reached, and what is
handed out there is a function of the titles of the opening tags up to that one: how the boxes nest,
where they close and what is in them plays no part. The titles in turn are a function of the marks
of a text, which are its opening tags, reduced to their titles, and its closing tags.

* `handedOut_eq_openAll`: a run hands out and counts as if there were only opening tags.
* `closes_iff`: whether an opening tag closes, with a counter.
* `pairedTitles_iff`: the titles of the boxes of a text, from its marks.
* `resolve_titles`: two texts with the same titles get the same ids and leave the same counters.
-/

namespace BBCode.Box

variable {o : Options} {k : BoxKind}

/-! ## What a run hands out -/

/-- The boxes that are opened in a run from `x` on, as they are when they are opened. -/
def handedOut (o : Options) (k : BoxKind) : Nest × Tally → List Tag → List Frame
  | _, [] => []
  | x, tag :: ts =>
    match k.title? tag with
    | some title => (openFrame o k title x.2).1 :: handedOut o k (step o k x tag) ts
    | none => handedOut o k (step o k x tag) ts

/-- Opens a box for each of some titles, with no text around. -/
def openAll (o : Options) (k : BoxKind) : Tally → List Text → List Frame × Tally
  | t, [] => ([], t)
  | t, title :: titles =>
    let opened := openFrame o k title t
    let others := openAll o k opened.2 titles
    (opened.1 :: others.1, others.2)

/-- The boxes with some titles, behind boxes with the titles `earlier`, where widgets have the
flags `flag`. -/
def framesAfter (k : BoxKind) (flag : Text → Bool) (earlier : List Text) : List Text → List Frame
  | [] => []
  | title :: titles =>
    { title, id := idAfter k earlier title, expanded := flag (idAfter k earlier title) } ::
      framesAfter k flag (earlier ++ [title]) titles

theorem step_of_title?_eq_none {tag : Tag} (h : k.title? tag = none) (x : Nest × Tally) :
    (step o k x tag).2 = x.2 := by
  rw [step, h]
  exact (apply_ite Prod.snd _ _ _).trans (ite_self _)

/-- What a run hands out and counts depends on the titles of its opening tags, and not on what is
open or written when they are reached. -/
theorem handedOut_eq_openAll (x : Nest × Tally) (ts : List Tag) :
    handedOut o k x ts = (openAll o k x.2 (ts.filterMap k.title?)).1 ∧
      (ts.foldl (step o k) x).2 = (openAll o k x.2 (ts.filterMap k.title?)).2 := by
  induction ts generalizing x with
  | nil => exact ⟨rfl, rfl⟩
  | cons tag ts ih =>
    obtain ⟨hframes, htally⟩ := ih (step o k x tag)
    rw [handedOut, List.foldl_cons]
    cases htitle : k.title? tag with
    | none =>
      rw [step_of_title?_eq_none htitle] at hframes htally
      rw [List.filterMap_cons_none htitle]
      exact ⟨hframes, htally⟩
    | some title =>
      have hstep : (step o k x tag).2 = (openFrame o k title x.2).2 := by
        rw [Forest.step_opening htitle]
      rw [hstep] at hframes htally
      rw [List.filterMap_cons_some htitle, openAll]
      exact ⟨congrArg _ hframes, htally⟩

theorem handedOut_eq_framesAfter (x : Nest × Tally) (ts : List Tag) :
    handedOut o k x ts =
      framesAfter k (x.2.widgets.flag o.expandByDefault) (earlier k x.2)
        (ts.filterMap k.title?) := by
  induction ts generalizing x with
  | nil => rfl
  | cons tag ts ih =>
    have hframes := ih (step o k x tag)
    rw [handedOut]
    cases htitle : k.title? tag with
    | none =>
      rw [step_of_title?_eq_none htitle] at hframes
      rwa [List.filterMap_cons_none htitle]
    | some title =>
      obtain ⟨hframe, hopened⟩ := openFrame_opened (o := o) htitle x.2
      rw [List.filterMap_cons_some htitle, framesAfter]
      show (openFrame o k title x.2).1 :: handedOut o k (step o k x tag) ts = _
      rw [hframes, hframe, Forest.step_opening htitle, hopened.flag, hopened.own]

theorem Forest.titles_eq {nested : Bool} (f : Forest k nested) :
    f.titles = f.tags.filterMap k.title? := by
  induction f with
  | nil => rfl
  | literal t hopen hclose rest ih =>
    rw [titles, tags, List.filterMap_cons_none hopen, ih]
  | box opening title hopen inside closing hclose rest ih1 ih2 =>
    rw [titles, tags, List.cons_append, List.cons_append, List.filterMap_cons_some hopen,
      List.filterMap_append, List.filterMap_cons_none (title?_of_closes hclose), ih1, ih2]

/-! ## The titles of a text -/

/-- The boxes among some tags have the titles `titles`, in the order of the opening tags, up to the
leftmost opening tag that does not close. -/
inductive PairedTitles (k : BoxKind) : List Tag → List Text → Prop where
  | nil : PairedTitles k [] []
  | other {tag : Tag} {ts : List Tag} {titles : List Text} (h : k.title? tag = none)
      (rest : PairedTitles k ts titles) : PairedTitles k (tag :: ts) titles
  | paired {tag : Tag} {ts : List Tag} {title : Text} {titles : List Text}
      (h : k.title? tag = some title) (hcloses : Closes k ts) (rest : PairedTitles k ts titles) :
      PairedTitles k (tag :: ts) (title :: titles)
  | unclosed {tag : Tag} {ts : List Tag} (h : (k.title? tag).isSome = true)
      (hcloses : ¬ Closes k ts) : PairedTitles k (tag :: ts) []

/-- What a tag of a kind of boxes amounts to where only the order of the tags matters. -/
inductive Mark where
  | opening (title : Text)
  | closing
  deriving DecidableEq, Repr

def mark? (k : BoxKind) (t : Tag) : Option Mark :=
  match k.title? t with
  | some title => some (.opening title)
  | none => if t.closes k.tag then some .closing else none

/-- The tags of a kind of boxes among some tags. -/
def marks (k : BoxKind) (ts : List Tag) : List Mark := ts.filterMap (mark? k)

/-- Whether there is a closing tag for a box that has `depth` boxes open inside. -/
def closesAt : Nat → List Mark → Bool
  | _, [] => false
  | depth, .opening _ :: ms => closesAt (depth + 1) ms
  | 0, .closing :: _ => true
  | depth + 1, .closing :: ms => closesAt depth ms

/-- The titles of the opening tags that close, up to the first that does not. -/
def titlesOf : List Mark → List Text
  | [] => []
  | .opening title :: ms => if closesAt 0 ms then title :: titlesOf ms else []
  | .closing :: ms => titlesOf ms

theorem marks_opening {tag : Tag} {title : Text} (h : k.title? tag = some title) (ts : List Tag) :
    marks k (tag :: ts) = .opening title :: marks k ts := by
  rw [marks, List.filterMap_cons_some (b := .opening title) (by rw [mark?, h])]
  rfl

theorem marks_closing {tag : Tag} (h : tag.closes k.tag = true) (ts : List Tag) :
    marks k (tag :: ts) = .closing :: marks k ts := by
  rw [marks, List.filterMap_cons_some (b := .closing)
    (by rw [mark?, Forest.title?_of_closes h, h]; rfl)]
  rfl

theorem marks_literal {tag : Tag} (h : k.title? tag = none) (hc : tag.closes k.tag = false)
    (ts : List Tag) : marks k (tag :: ts) = marks k ts := by
  rw [marks, List.filterMap_cons_none (by rw [mark?, h, hc]; rfl)]
  rfl

/-- The boxes of a forest leave the counter as it was. -/
theorem closesAt_tags {nested : Bool} (f : Forest k nested) (h : nested = true) (depth : Nat)
    (rest : List Tag) :
    closesAt depth (marks k (f.tags ++ rest)) = closesAt depth (marks k rest) := by
  induction f generalizing depth rest with
  | nil => rfl
  | literal t hopen hclose f ih =>
    rw [Forest.tags, List.cons_append, marks_literal hopen (hclose h), ih h]
  | box opening title hopen inside closing hclose f ih1 ih2 =>
    rw [Forest.tags, List.cons_append, List.cons_append, List.append_assoc, List.cons_append,
      marks_opening hopen, closesAt, ih1 rfl, marks_closing hclose, closesAt, ih2 h]

/-- A closing tag that is left over closes the box around, however many are open. -/
theorem closes_of_closesAt {depth : Nat} {ts : List Tag} (h : closesAt depth (marks k ts) = true) :
    Closes k ts := by
  have htags := Forest.tags_read k true ts
  rw [← htags, closesAt_tags _ rfl] at h
  rcases Forest.rest_read k true ts with hrest | hrest | ⟨-, closing, us, hrest, hclose⟩
  · rw [hrest] at h
    cases h
  · -- an opening tag that stays open, with one more box open behind it
    cases hts : (Forest.read k true ts).2.1 with
    | nil =>
      rw [hts] at h
      cases h
    | cons opening us =>
      rw [hts] at h hrest htags
      obtain ⟨title, htitle⟩ := Option.isSome_iff_exists.1 hrest.opens
      rw [marks_opening htitle, closesAt] at h
      have hlt : us.length < ts.length := by
        rw [← htags, List.length_append, List.length_cons]
        omega
      exact absurd (closes_of_closesAt h) hrest.not_closes
  · exact ⟨_, closing, us, hclose, by rw [← hrest, htags]⟩
termination_by ts.length

theorem closes_iff {ts : List Tag} : Closes k ts ↔ closesAt 0 (marks k ts) = true := by
  constructor
  · rintro ⟨inside, closing, rest, hclose, rfl⟩
    rw [closesAt_tags _ rfl, marks_closing hclose, closesAt]
  · exact closes_of_closesAt

theorem pairedTitles_titlesOf (k : BoxKind) (ts : List Tag) :
    PairedTitles k ts (titlesOf (marks k ts)) := by
  induction ts with
  | nil => exact .nil
  | cons tag ts ih =>
    cases htitle : k.title? tag with
    | some title =>
      rw [marks_opening htitle, titlesOf]
      by_cases hcloses : Closes k ts
      · rw [if_pos (closes_iff.1 hcloses)]
        exact .paired htitle hcloses ih
      · rw [if_neg (mt closes_iff.2 hcloses)]
        exact .unclosed (by rw [htitle]; rfl) hcloses
    | none =>
      cases hclose : tag.closes k.tag with
      | true =>
        rw [marks_closing hclose, titlesOf]
        exact .other htitle ih
      | false =>
        rw [marks_literal htitle hclose]
        exact .other htitle ih

theorem PairedTitles.unique {ts : List Tag} {xs ys : List Text} (h : PairedTitles k ts xs)
    (h' : PairedTitles k ts ys) : xs = ys := by
  induction h generalizing ys with
  | nil => cases h'; rfl
  | other htitle _ ih =>
    cases h' with
    | other _ rest => exact ih rest
    | paired h => rw [htitle] at h; cases h
    | unclosed h => rw [htitle] at h; cases h
  | paired htitle hcloses _ ih =>
    cases h' with
    | other h => rw [htitle] at h; cases h
    | paired h _ rest => rw [htitle] at h; cases h; rw [ih rest]
    | unclosed _ hnot => exact absurd hcloses hnot
  | unclosed hopen hnot =>
    cases h' with
    | other h => rw [h] at hopen; cases hopen
    | paired _ hcloses => exact absurd hcloses hnot
    | unclosed => rfl

/-- The titles of the boxes are a function of the marks. -/
theorem pairedTitles_iff {ts : List Tag} {titles : List Text} :
    PairedTitles k ts titles ↔ titles = titlesOf (marks k ts) :=
  ⟨fun h => h.unique (pairedTitles_titlesOf k ts), fun h => h ▸ pairedTitles_titlesOf k ts⟩

theorem PairedTitles.tags_append {nested : Bool} (f : Forest k nested) {rest : List Tag}
    {titles : List Text} (h : PairedTitles k rest titles) :
    PairedTitles k (f.tags ++ rest) (f.titles ++ titles) := by
  induction f generalizing rest titles with
  | nil => exact h
  | literal t hopen hclose f ih => exact .other hopen (ih h)
  | box opening title hopen inside closing hclose f ih1 ih2 =>
    rw [Forest.tags, Forest.titles, List.cons_append, List.cons_append, List.cons_append,
      List.cons_append, List.append_assoc, List.append_assoc, List.cons_append]
    exact .paired hopen ⟨inside, closing, _, hclose, rfl⟩
      (ih1 (.other (Forest.title?_of_closes hclose) (ih2 h)))

theorem pairedTitles_forest (k : BoxKind) (s : Text) :
    PairedTitles k (Tag.scan s) (forest k s).titles := by
  have hstopped : PairedTitles k (stopped k s) [] := by
    rcases stopped_cases k s with h | ⟨opening, after, h, hopen, hnever⟩
    · rw [h]
      exact .nil
    · rw [h]
      exact .unclosed hopen hnever
  have h := PairedTitles.tags_append (forest k s) hstopped
  rwa [tags_forest, List.append_nil] at h

/-! ## Two texts -/

/-- Two texts get the same boxes in one order, with the same ids and flags, and leave the same
counters and the same widgets. -/
def SameBoxes (o : Options) (k : BoxKind) (t : Tally) (s s' : Text) : Prop :=
  handedOut o k ({}, t) (split k (Tag.scan s)).1 =
      handedOut o k ({}, t) (split k (Tag.scan s')).1 ∧
    (resolve o k (s, t)).2 = (resolve o k (s', t)).2

theorem sameBoxes_of_titles {t : Tally} {s s' : Text}
    (h : (forest k s).titles = (forest k s').titles) : SameBoxes o k t s s' := by
  have hrun := handedOut_eq_openAll (o := o) (k := k) ({}, t) (forest k s).tags
  have hrun' := handedOut_eq_openAll (o := o) (k := k) ({}, t) (forest k s').tags
  rw [← Forest.titles_eq, h, Forest.titles_eq] at hrun
  simp only [SameBoxes, resolve, split_scan]
  exact ⟨hrun.1.trans hrun'.1.symm, hrun.2.trans hrun'.2.symm⟩

/-- What `resolve` hands out and counts depends on the titles of the boxes in document order. So a
text can be changed at will, in the boxes and around them: as long as it has the same opening
titles and closing tags in the same order, no box gets another id. -/
theorem resolve_titles (o : Options) (k : BoxKind) (t : Tally) (s s' : Text) :
    (∀ titles, PairedTitles k (Tag.scan s) titles → PairedTitles k (Tag.scan s') titles →
        SameBoxes o k t s s') ∧
      (marks k (Tag.scan s) = marks k (Tag.scan s') → SameBoxes o k t s s') := by
  have htitles : ∀ titles, PairedTitles k (Tag.scan s) titles →
      PairedTitles k (Tag.scan s') titles → SameBoxes o k t s s' := fun titles h h' =>
    sameBoxes_of_titles (((pairedTitles_forest k s).unique h).trans
      ((pairedTitles_forest k s').unique h').symm)
  refine ⟨htitles, fun hmarks => htitles _ (pairedTitles_titlesOf k _) ?_⟩
  exact pairedTitles_iff.2 (congrArg titlesOf hmarks)

/-- A box in a box, and the same two beside each other with a stray closing tag; then another body
with a tag of its own. -/
theorem resolve_titles_renested :
    (PairedTitles .named (Tag.scan "[box=a]x[box=a]y[/box]z[/box]".toList)
        ["a".toList, "a".toList] ∧
      PairedTitles .named (Tag.scan "[/box][box=a][/box][b][BOX=a][/box]w[box=c]".toList)
        ["a".toList, "a".toList] ∧
      SameBoxes {} .named { widgets := .empty } "[box=a]x[box=a]y[/box]z[/box]".toList
        "[/box][box=a][/box][b][BOX=a][/box]w[box=c]".toList) ∧
    marks .named (Tag.scan "[box=a]x[box=a]y[/box]z[/box]".toList) =
        marks .named (Tag.scan "[box=a][b]new[/b][box=a][/box][/box]".toList) ∧
      SameBoxes {} .named { widgets := .empty } "[box=a]x[box=a]y[/box]z[/box]".toList
        "[box=a][b]new[/b][box=a][/box][/box]".toList := by
  have h : PairedTitles .named (Tag.scan "[box=a]x[box=a]y[/box]z[/box]".toList)
      ["a".toList, "a".toList] := pairedTitles_iff.2 (by decide +kernel)
  have h' : PairedTitles .named (Tag.scan "[/box][box=a][/box][b][BOX=a][/box]w[box=c]".toList)
      ["a".toList, "a".toList] := pairedTitles_iff.2 (by decide +kernel)
  have hmarks : marks .named (Tag.scan "[box=a]x[box=a]y[/box]z[/box]".toList) =
      marks .named (Tag.scan "[box=a][b]new[/b][box=a][/box][/box]".toList) := by decide +kernel
  exact ⟨⟨h, h', (resolve_titles {} .named _ _ _).1 _ h h'⟩, hmarks,
    (resolve_titles {} .named _ _ _).2 hmarks⟩

end BBCode.Box
