import BBCode.Proofs.Flags

/-!
# BBCode.Proofs.Box.Forest

Boxes as trees. A recursive-descent reader turns the tags of a text into a forest: an opening tag
of the kind owns everything up to its own closing tag, every other tag is a literal, and the
reader stops in front of an opening tag that never closes. `resolve`, which runs over the tags
with a stack of open boxes, writes exactly what a walk over that forest writes.

* `split_scan`: the reader stops where `resolve` stops.
* `foldl_tags`: a run over the tags of a forest writes its HTML into the innermost open box.
* `resolve_forest`: what `resolve` writes and counts, whether or not every box closes.
* `eq_forest`: a text has no other forest.
* `resolve_eq_forest`: where every box closes, `resolve` is the walk over the forest.
-/

namespace BBCode.Box

/-- Boxes of a kind and the literal tags between them. Outside of all boxes (`nested` is false) a
closing tag is a literal as well. -/
inductive Forest (k : BoxKind) : Bool → Type where
  | nil {nested : Bool} : Forest k nested
  | literal {nested : Bool} (t : Tag) (hopen : k.title? t = none)
      (hclose : nested = true → t.closes k.tag = false) (rest : Forest k nested) : Forest k nested
  | box {nested : Bool} (opening : Tag) (title : Text) (hopen : k.title? opening = some title)
      (inside : Forest k true) (closing : Tag) (hclose : closing.closes k.tag = true)
      (rest : Forest k nested) : Forest k nested

/-- The id of the next box with a title, behind boxes with the titles `earlier`. -/
def idAfter (k : BoxKind) (earlier : List Text) (title : Text) : Text :=
  WidgetId.make k.tag title (earlier.count title + 1)

/-- The ids of boxes with the titles `titles`, behind boxes with the titles `earlier`. -/
def idsAfter (k : BoxKind) (earlier : List Text) : List Text → List Text
  | [] => []
  | title :: titles => idAfter k earlier title :: idsAfter k (earlier ++ [title]) titles

theorem idsAfter_append (k : BoxKind) (earlier xs ys : List Text) :
    idsAfter k earlier (xs ++ ys) = idsAfter k earlier xs ++ idsAfter k (earlier ++ xs) ys := by
  induction xs generalizing earlier with
  | nil => simp [idsAfter]
  | cons x xs ih => simp [idsAfter, ih]

namespace Forest

variable {k : BoxKind} {nested : Bool}

/-- The tags, in document order. -/
def tags {nested : Bool} : Forest k nested → List Tag
  | nil => []
  | literal t _ _ rest => t :: rest.tags
  | box opening _ _ inside closing _ rest => opening :: inside.tags ++ closing :: rest.tags

/-- The titles of the boxes, in the order of their opening tags. -/
def titles {nested : Bool} : Forest k nested → List Text
  | nil => []
  | literal _ _ _ rest => rest.titles
  | box _ title _ inside _ _ rest => title :: inside.titles ++ rest.titles

/-- Writes a forest: literals as they are, a box the way `style` writes it, given the two tags,
the title, the id and the written inside. -/
def write (style : Tag → Tag → Text → Text → Text → Text) {nested : Bool} (earlier : List Text) :
    Forest k nested → Text
  | nil => []
  | literal t _ _ rest => t.source ++ rest.write style earlier
  | box opening title _ inside closing _ rest =>
    style opening closing title (idAfter k earlier title)
        (inside.write style (earlier ++ [title])) ++
      rest.write style (earlier ++ title :: inside.titles)

/-- A box as it is in the document. -/
def spelled (opening closing : Tag) (_ _ inside : Text) : Text :=
  opening.source ++ inside ++ closing.source

/-- A box as it is on the page, where widgets have the flags `flag`. -/
def shown (flag : Text → Bool) (_ _ : Tag) (title id inside : Text) : Text :=
  Html.widget title inside.trimBreaks id (flag id)

/-- Reads a forest off the front of some tags. What is left starts with a tag that does not
belong to it: a closing tag if the forest is inside a box, or an opening tag that never closes. -/
def read (k : BoxKind) (nested : Bool) (ts : List Tag) :
    Forest k nested × { rest : List Tag // rest.length ≤ ts.length } :=
  match ts with
  | [] => (nil, ⟨[], Nat.le_refl 0⟩)
  | t :: ts =>
    match hopen : k.title? t with
    | none =>
      if hclose : nested = true ∧ t.closes k.tag = true then (nil, ⟨t :: ts, Nat.le_refl _⟩)
      else
        let x := read k nested ts
        (literal t hopen (fun hn => by simpa [hn] using hclose) x.1,
          ⟨x.2.1, Nat.le_succ_of_le x.2.2⟩)
    | some title =>
      match read k true ts with
      | (inside, ⟨closing :: us, hus⟩) =>
        if hclose : closing.closes k.tag = true then
          have hlt : us.length < ts.length := hus
          let x := read k nested us
          (box t title hopen inside closing hclose x.1,
            ⟨x.2.1, Nat.le_trans x.2.2 (Nat.le_succ_of_le (Nat.le_of_lt hlt))⟩)
        else (nil, ⟨t :: ts, Nat.le_refl _⟩)
      | (_, ⟨[], _⟩) => (nil, ⟨t :: ts, Nat.le_refl _⟩)
termination_by ts.length

/-! ## The reader -/

theorem tags_read (k : BoxKind) (nested : Bool) (ts : List Tag) :
    (read k nested ts).1.tags ++ (read k nested ts).2.1 = ts := by
  fun_induction read k nested ts with
  | case1 => rfl
  | case2 => rfl
  | case3 nested t ts hopen hclose x ih => exact congrArg (t :: ·) ih
  | case4 nested t ts title hopen inside closing us hus hread hclose hlt x ih1 ih2 =>
    rw [hread] at ih1
    simp only [tags, List.cons_append, List.append_assoc]
    rw [ih2, ih1]
  | case5 => rfl
  | case6 => rfl

theorem write_spelled (f : Forest k nested) (earlier : List Text) :
    f.write spelled earlier = f.tags.flatMap Tag.source := by
  induction f generalizing earlier with
  | nil => rfl
  | literal t hopen hclose rest ih => simp only [write, tags, List.flatMap_cons, ih]
  | box opening title hopen inside closing hclose rest ih1 ih2 =>
    simp only [write, tags, spelled, List.cons_append, List.flatMap_cons, List.flatMap_append, ih1,
      ih2, List.append_assoc]

/-! ## What the reader leaves -/

/-- The opening tag at the front of `ts` stays open, whatever is open around it. -/
def StaysOpen (k : BoxKind) (ts : List Tag) : Prop :=
  ∀ i stack, ∃ inner, openAfter k i stack ts = inner ++ i :: stack

theorem openAfter_opening {t : Tag} {title : Text} (h : k.title? t = some title) (i : Nat)
    (stack : List Nat) (ts : List Tag) :
    openAfter k i stack (t :: ts) = openAfter k (i + 1) (i :: stack) ts := by
  rw [openAfter, h]
  rfl

theorem title?_of_closes {t : Tag} (h : t.closes k.tag = true) : k.title? t = none := by
  cases t with
  | closing n => exact k.title?_closing n
  | opening n p => cases h
  | text run => cases h

theorem openAfter_tags (f : Forest k nested) (rest : List Tag) (i : Nat) (stack : List Nat)
    (hstack : nested = false → stack = []) :
    openAfter k i stack (f.tags ++ rest) = openAfter k (i + f.tags.length) stack rest := by
  induction f generalizing rest i stack with
  | nil => rfl
  | @literal nested t hopen hclose f ih =>
    have hkeep : openAfter k i stack (t :: (f.tags ++ rest)) =
        openAfter k (i + 1) stack (f.tags ++ rest) := by
      rw [openAfter, hopen]
      cases nested with
      | true => simp [hclose rfl]
      | false => simp [hstack rfl]
    rw [tags, List.cons_append, hkeep, ih rest (i + 1) stack hstack, List.length_cons]
    congr 1
    omega
  | @box nested opening title hopen inside closing hclose f ih1 ih2 =>
    rw [tags, List.cons_append, List.cons_append, openAfter_opening hopen, List.append_assoc,
      List.cons_append, ih1 _ (i + 1) (i :: stack) (fun h => by cases h), openAfter,
      title?_of_closes hclose, hclose]
    simp only [Option.isSome_none, Bool.false_eq_true, if_false, if_true, List.tail_cons]
    rw [ih2 rest _ stack hstack]
    simp only [List.length_cons, List.length_append]
    congr 1
    omega

/-- What the reader leaves starts with a tag that closes the box around it, or with an opening tag
that never closes. -/
theorem rest_read (k : BoxKind) (nested : Bool) (ts : List Tag) :
    (read k nested ts).2.1 = [] ∨ StaysOpen k (read k nested ts).2.1 ∨
      nested = true ∧ ∃ t us, (read k nested ts).2.1 = t :: us ∧ t.closes k.tag = true := by
  fun_induction read k nested ts with
  | case1 => exact .inl rfl
  | case2 nested t ts hopen hclose => exact .inr (.inr ⟨hclose.1, t, ts, rfl, hclose.2⟩)
  | case3 nested t ts hopen hclose x ih => exact ih
  | case4 nested t ts title hopen inside closing us hus hread hclose hlt x ih1 ih2 => exact ih2
  | case5 nested t ts title hopen inside closing us hus hread hclose ih =>
    -- the inside stops at a tag that stays open, so the tag around it stays open as well
    have htags := tags_read k true ts
    rw [hread] at ih htags
    refine .inr (.inl fun i stack => ?_)
    rcases ih with h | h | ⟨-, c, vs, h, hc⟩
    · cases h
    · obtain ⟨inner, hinner⟩ := h (i + 1 + inside.tags.length) (i :: stack)
      refine ⟨inner ++ [i + 1 + inside.tags.length], ?_⟩
      rw [openAfter_opening hopen, ← htags, openAfter_tags _ _ _ _ (fun h => by cases h), hinner]
      simp
    · cases h
      exact absurd hc hclose
  | case6 nested t ts title hopen inside h hread ih =>
    have htags := tags_read k true ts
    rw [hread] at htags
    refine .inr (.inl fun i stack => ⟨[], ?_⟩)
    rw [openAfter_opening hopen, ← htags, openAfter_tags _ _ _ _ (fun h => by cases h)]
    rfl

end Forest

/-- The boxes of a text. -/
def forest (k : BoxKind) (s : Text) : Forest k false := (Forest.read k false (Tag.scan s)).1

/-- The tags from the leftmost opening tag on that never closes. -/
def stopped (k : BoxKind) (s : Text) : List Tag := (Forest.read k false (Tag.scan s)).2.1

theorem tags_forest (k : BoxKind) (s : Text) : (forest k s).tags ++ stopped k s = Tag.scan s :=
  Forest.tags_read k false (Tag.scan s)

theorem unclosed?_scan (k : BoxKind) (s : Text) :
    unclosed? k (Tag.scan s) =
      if stopped k s = [] then none else some (forest k s).tags.length := by
  rw [unclosed?, ← tags_forest, Forest.openAfter_tags _ _ _ _ (fun _ => rfl)]
  rcases Forest.rest_read k false (Tag.scan s) with h | h | ⟨h, -⟩
  · have h : stopped k s = [] := h
    rw [h]
    rfl
  · have hne : stopped k s ≠ [] := by
      intro hnil
      have h : Forest.StaysOpen k (stopped k s) := h
      obtain ⟨inner, hinner⟩ := h 0 []
      rw [hnil] at hinner
      simp [openAfter] at hinner
    obtain ⟨inner, hinner⟩ := h (0 + (forest k s).tags.length) []
    rw [if_neg hne]
    have hinner : openAfter k (0 + (forest k s).tags.length) [] (stopped k s) = _ := hinner
    rw [hinner]
    simp
  · cases h

/-- No opening tag stays open exactly if the reader gets through all tags. -/
theorem unclosed?_eq_none_iff {s : Text} :
    unclosed? k (Tag.scan s) = none ↔ (forest k s).tags = Tag.scan s := by
  have happend := tags_forest k s
  rw [unclosed?_scan]
  constructor
  · intro h
    by_cases hs : stopped k s = []
    · rwa [hs, List.append_nil] at happend
    · rw [if_neg hs] at h
      cases h
  · intro h
    rw [h, List.append_right_eq_self] at happend
    rw [if_pos happend]

/-- The reader stops where `resolve` stops. -/
theorem split_scan (k : BoxKind) (s : Text) :
    split k (Tag.scan s) = ((forest k s).tags, stopped k s) := by
  rw [split, unclosed?_scan]
  by_cases h : stopped k s = []
  · rw [if_pos h]
    simp [← tags_forest k s, h]
  · rw [if_neg h]
    simp [← tags_forest k s]

/-! ## Runs -/

/-- The titles of the boxes of a kind that are counted in a tally, the last one last. -/
def earlier : BoxKind → Tally → List Text
  | .named, t => t.titles.reverse
  | .spoiler, t => List.replicate t.spoilerboxes BoxKind.spoilerTitle

/-- The tally `u` is the tally `t` after boxes of a kind with some titles were opened. -/
structure Opened (o : Options) (k : BoxKind) (titles : List Text) (t u : Tally) : Prop where
  flag : u.widgets.flag o.expandByDefault = t.widgets.flag o.expandByDefault
  own : earlier k u = earlier k t ++ titles
  other : ∀ j, j ≠ k → earlier j u = earlier j t
  seen : u.seen = (idsAfter k (earlier k t) titles).reverse ++ t.seen

variable {o : Options} {k : BoxKind}

namespace Opened

variable {titles titles' : List Text} {t u v : Tally}

theorem refl (t : Tally) : Opened o k [] t t :=
  ⟨rfl, (List.append_nil _).symm, fun _ _ => rfl, rfl⟩

theorem trans (h : Opened o k titles t u) (h' : Opened o k titles' u v) :
    Opened o k (titles ++ titles') t v where
  flag := h'.flag.trans h.flag
  own := by rw [h'.own, h.own, List.append_assoc]
  other j hj := (h'.other j hj).trans (h.other j hj)
  seen := by rw [h'.seen, h.own, h.seen, idsAfter_append, List.reverse_append, List.append_assoc]

end Opened

theorem title_spoiler {tag : Tag} {title : Text} (h : BoxKind.spoiler.title? tag = some title) :
    title = BoxKind.spoilerTitle := by
  cases tag with
  | opening n p =>
    cases p with
    | none =>
      simp only [BoxKind.title?, Option.ite_none_right_eq_some, Option.some.injEq] at h
      exact h.2.symm
    | some p => cases h
  | closing n => cases h
  | text run => cases h

/-- A title is that of all spoiler boxes, or the tag has it. -/
theorem title_cases {tag : Tag} {title : Text} (h : k.title? tag = some title) :
    title = BoxKind.spoilerTitle ∨ ∃ name, tag = .opening name (some title) := by
  cases k with
  | spoiler => exact .inl (title_spoiler h)
  | named =>
    cases tag with
    | opening name param =>
      cases param with
      | none => cases h
      | some param =>
        simp only [BoxKind.title?, Option.ite_none_right_eq_some, Option.some.injEq] at h
        exact .inr ⟨name, by rw [h.2]⟩
    | closing name => cases h
    | text run => cases h

/-- Opening a box with a title that the kind can have. -/
theorem openFrame_opened {tag : Tag} {title : Text} (h : k.title? tag = some title) (t : Tally) :
    (openFrame o k title t).1 =
        { title, id := idAfter k (earlier k t) title,
          expanded := t.widgets.flag o.expandByDefault (idAfter k (earlier k t) title) } ∧
      Opened o k [title] t (openFrame o k title t).2 := by
  have hid : nextId k title t = idAfter k (earlier k t) title := by
    rw [nextId, idAfter]
    congr 1
    cases k with
    | named => simp [count, Tally.countTitle_fst, Tally.titleCount, earlier]
    | spoiler => simp [count, Tally.nextSpoilerbox, earlier, title_spoiler h]
  have hflag : (count k title t).2.widgets = t.widgets := count_widgets title t
  rw [openFrame_eq, Tally.register_fst, hid, hflag]
  refine ⟨rfl, ?_, ?_, ?_, ?_⟩
  · show ((count k title t).2.widgets.ensure _ _).flag _ = _
    rw [WidgetMap.flag_ensure, hflag]
  · cases k with
    | named => simp [earlier, count, Tally.countTitle, Tally.register]
    | spoiler =>
      simp [earlier, count, Tally.nextSpoilerbox, Tally.register, title_spoiler h,
        List.replicate_succ']
  · intro j hj
    cases k <;> cases j <;> first | rfl | exact absurd rfl hj
  · rw [Tally.register_seen, count_seen]
    rfl

namespace Forest

variable {nested : Bool}

theorem step_opening {tag : Tag} {title : Text} (h : k.title? tag = some title)
    (x : Nest × Tally) :
    step o k x tag = (x.1.push (openFrame o k title x.2).1, (openFrame o k title x.2).2) := by
  rw [step, h]

theorem step_closing {tag : Tag} (h : tag.closes k.tag = true) (x : Nest × Tally) :
    step o k x tag = (x.1.close tag.source, x.2) := by
  rw [step, title?_of_closes h]
  simp only [h, if_true]

/-- A closing tag outside of all boxes is written like any other literal. -/
theorem step_literal {tag : Tag} (hopen : k.title? tag = none)
    (hclose : nested = true → tag.closes k.tag = false) {n : Nest}
    (hn : nested = false → n.frames = []) (t : Tally) :
    step o k (n, t) tag = (n.write tag.source, t) := by
  rw [step, hopen]
  cases nested with
  | true => simp [hclose rfl]
  | false => simp [Nest.close, hn rfl]

theorem frames_write_eq_nil {n : Nest} (h : n.frames = []) (s : Text) : (n.write s).frames = [] := by
  rw [Nest.write, h]

theorem foldl_tags (f : Forest k nested) (n : Nest) (hn : nested = false → n.frames = [])
    (t : Tally) :
    (f.tags.foldl (step o k) (n, t)).1 =
        n.write (f.write (shown (t.widgets.flag o.expandByDefault)) (earlier k t)) ∧
      Opened o k f.titles t (f.tags.foldl (step o k) (n, t)).2 := by
  induction f generalizing n t with
  | nil => exact ⟨n.write_nil.symm, .refl t⟩
  | literal tag hopen hclose rest ih =>
    obtain ⟨hw, hopened⟩ := ih (n.write tag.source) (fun h => frames_write_eq_nil (hn h) _) t
    rw [tags, List.foldl_cons, step_literal hopen hclose hn]
    refine ⟨?_, hopened⟩
    rw [hw, write, Nest.write_write]
  | box opening title hopen inside closing hclose rest ih1 ih2 =>
    obtain ⟨hframe, hopened⟩ := openFrame_opened (o := o) hopen t
    obtain ⟨hw1, hopened1⟩ := ih1 (n.push (openFrame o k title t).1) (fun h => by cases h)
      (openFrame o k title t).2
    rw [tags, List.foldl_append, List.foldl_cons, List.foldl_cons, step_opening hopen]
    generalize List.foldl (step o k) (n.push (openFrame o k title t).1, (openFrame o k title t).2)
      inside.tags = x at *
    obtain ⟨m, u⟩ := x
    simp only at hw1 hopened1
    have hboth := hopened.trans hopened1
    rw [step_closing hclose, hw1, hframe, Nest.close_write_push, hopened.flag, hopened.own]
    obtain ⟨hw2, hopened2⟩ := ih2 (n.write (shown (t.widgets.flag o.expandByDefault) opening closing
      title (idAfter k (earlier k t) title)
      (inside.write (shown (t.widgets.flag o.expandByDefault)) (earlier k t ++ [title]))))
      (fun h => frames_write_eq_nil (hn h) _) u
    refine ⟨hw2.trans ?_, hboth.trans hopened2⟩
    rw [Nest.write_write, hboth.flag, hboth.own]
    rfl

end Forest

/-- What `resolve` does to any text: it writes the boxes before the hard stop and counts them. -/
theorem resolve_forest (o : Options) (k : BoxKind) (x : Text × Tally) :
    (resolve o k x).1 =
        (forest k x.1).write (Forest.shown (x.2.widgets.flag o.expandByDefault)) (earlier k x.2) ++
          (stopped k x.1).flatMap Tag.source ∧
      Opened o k (forest k x.1).titles x.2 (resolve o k x).2 := by
  obtain ⟨hw, hopened⟩ := (forest k x.1).foldl_tags (o := o) {} (fun _ => rfl) x.2
  simp only [resolve, split_scan]
  refine ⟨?_, hopened⟩
  rw [hw]
  rfl

/-! ## Every forest is read back -/

namespace Forest

variable {nested : Bool}

/-- The reader is the only way to read a forest: it gets back any forest from its tags. -/
theorem read_tags (f : Forest k nested) (rest : List Tag)
    (h : rest = [] ∨ nested = true ∧ ∃ t us, rest = t :: us ∧ t.closes k.tag = true) :
    (read k nested (f.tags ++ rest)).1 = f ∧ (read k nested (f.tags ++ rest)).2.1 = rest := by
  induction f generalizing rest with
  | nil =>
    rcases h with rfl | ⟨rfl, t, us, rfl, hc⟩
    · rw [tags, List.append_nil, read]
      exact ⟨rfl, rfl⟩
    · rw [tags, List.nil_append, read]
      split
      · rw [dif_pos ⟨rfl, hc⟩]
        exact ⟨rfl, rfl⟩
      · rename_i title hopen
        rw [title?_of_closes hc] at hopen
        cases hopen
  | @literal nested t hopen hclose f ih =>
    obtain ⟨hf, hrest⟩ := ih rest h
    have hstay : ¬(nested = true ∧ t.closes k.tag = true) := fun hc => by
      rw [hclose hc.1] at hc
      cases hc.2
    rw [tags, List.cons_append, read]
    split
    · rw [dif_neg hstay]
      exact ⟨congrArg (literal t hopen hclose) hf, hrest⟩
    · rename_i title htitle
      rw [hopen] at htitle
      cases htitle
  | box opening title hopen inside closing hclose f ih1 ih2 =>
    obtain ⟨hf, hrest⟩ := ih2 rest h
    obtain ⟨hinside, hback⟩ :=
      ih1 (closing :: f.tags ++ rest) (.inr ⟨rfl, closing, f.tags ++ rest, rfl, hclose⟩)
    rw [tags, List.cons_append, List.cons_append, List.append_assoc, read]
    split
    · rename_i htitle
      rw [hopen] at htitle
      cases htitle
    · rename_i title' htitle
      rw [hopen] at htitle
      cases htitle
      split
      · rename_i inside' c us hus hread
        rw [hread] at hinside hback
        cases hback
        obtain rfl : inside = inside' := hinside.symm
        rw [dif_pos hclose]
        exact ⟨congrArg (box opening title hopen inside closing hclose) hf, hrest⟩
      · rename_i inside' hus hread
        rw [hread] at hback
        cases hback

end Forest

/-- A text in which every box closes has one forest. -/
theorem eq_forest {s : Text} {f : Forest k false} (h : f.tags = Tag.scan s) : f = forest k s := by
  have hf := (f.read_tags [] (.inl rfl)).1
  rw [List.append_nil, h] at hf
  exact hf.symm

/-! ## The resolver and the reader -/

/-- Where every box closes, the resolver that runs with a stack is the walk over the forest that
the recursive-descent reader gets: the forest spells the text, each box becomes its widget, with
its inside less the line breaks at the two ends, and ids are handed out in the order of the
opening tags. -/
theorem resolve_eq_forest (o : Options) (k : BoxKind) (s : Text) (t : Tally)
    (h : unclosed? k (Tag.scan s) = none) :
    (forest k s).write Forest.spelled [] = s ∧
      (resolve o k (s, t)).1 =
        (forest k s).write (Forest.shown (t.widgets.flag o.expandByDefault)) (earlier k t) ∧
      (resolve o k (s, t)).2.seen =
        (idsAfter k (earlier k t) (forest k s).titles).reverse ++ t.seen ∧
      ∀ inside : Text, ∃ p q, Breaks p ∧ Breaks q ∧ inside = p ++ inside.trimBreaks ++ q := by
  have htags := unclosed?_eq_none_iff.1 h
  have hstopped : stopped k s = [] := by
    have happend := tags_forest k s
    rwa [htags, List.append_right_eq_self] at happend
  obtain ⟨hw, hopened⟩ := resolve_forest o k (s, t)
  refine ⟨?_, ?_, hopened.seen, Text.trimBreaks_append⟩
  · rw [Forest.write_spelled, htags, Tag.flatMap_source_scan]
  · rw [hw, hstopped, List.flatMap_nil, List.append_nil]

/-- A box in a box, with a stray closing tag behind them. -/
def twoBoxes : Forest .named false :=
  .box (.opening "box".toList (some "a".toList)) "a".toList rfl
    (.literal (.text "x".toList) rfl (fun _ => rfl)
      (.box (.opening "BOX".toList (some "b".toList)) "b".toList rfl
        (.literal (.text "\ny".toList) rfl (fun _ => rfl) .nil) (.closing "box".toList) rfl
        (.literal (.text "z".toList) rfl (fun _ => rfl) .nil)))
    (.closing "box".toList) rfl
    (.literal (.closing "box".toList) rfl (fun h => by cases h) .nil)

theorem resolve_twoBoxes :
    unclosed? .named (Tag.scan "[box=a]x[BOX=b]\ny[/box]z[/box][/box]".toList) = none ∧
      forest .named "[box=a]x[BOX=b]\ny[/box]z[/box][/box]".toList = twoBoxes ∧
      (resolve {} .named ("[box=a]x[BOX=b]\ny[/box]z[/box][/box]".toList, { widgets := .empty })).1 =
        twoBoxes.write (Forest.shown (WidgetMap.flag .empty false)) [] := by
  have htags : twoBoxes.tags = Tag.scan "[box=a]x[BOX=b]\ny[/box]z[/box][/box]".toList := by
    decide +kernel
  have hforest := eq_forest htags
  have hclosed := unclosed?_eq_none_iff.2 (hforest ▸ htags)
  have hresolve := (resolve_eq_forest {} .named _ { widgets := .empty } hclosed).2.1
  rw [← hforest] at hresolve
  exact ⟨hclosed, hforest.symm, hresolve⟩

end BBCode.Box
