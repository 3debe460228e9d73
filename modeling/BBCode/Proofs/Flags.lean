import BBCode.Document

/-!
# BBCode.Proofs.Flags

What a render does with the flags of widgets. A widget is shown with the flag the map has for it,
or with the default flag; nothing else of the map is used, and the map at the end has exactly the
widgets that were shown, with the flags they were shown with. So rendering the same document again
from that map gives the same page.

* `get?_ext`: a map is known by the flags of all ids.
* `Steady.run`: a render depends on the flags of the widgets it shows only.
* `get?_render`: the flags after a render.
* `render_render`: a second render changes nothing.
-/

namespace BBCode

namespace WidgetMap

/-- The flag that a widget is shown with. -/
def flag (m : WidgetMap) (default : Bool) (id : Text) : Bool := (m.get? id).getD default

/-- Registering a widget changes no flag that a widget is shown with. -/
theorem flag_ensure (m : WidgetMap) (default : Bool) (id : Text) :
    (m.ensure id default).flag default = m.flag default := by
  funext k
  rw [flag, flag, get?_ensure]
  by_cases hk : k = id
  · rw [if_pos hk, hk]
    rfl
  · rw [if_neg hk]

/-- The flag that a widget is shown with after a flip. -/
theorem flag_toggle (m : WidgetMap) (id k : Text) (default : Bool) :
    (m.toggle id).2.flag default k = if k = id then (m.toggle id).1 else m.flag default k := by
  show ((m.set id _).get? k).getD default = _
  rw [get?_set]
  by_cases hk : k = id
  · rw [if_pos hk, if_pos hk]
    rfl
  · rw [if_neg hk, if_neg hk]
    rfl

theorem mem_of_lookup {es : List (Text × Bool)} {id : Text} {b : Bool}
    (h : es.lookup id = some b) : (id, b) ∈ es := by
  induction es with
  | nil => simp at h
  | cons e es ih =>
    obtain ⟨k, v⟩ := e
    rw [lookup_cons_ite] at h
    by_cases hk : id = k
    · rw [if_pos hk, Option.some.injEq] at h
      simp [hk, h]
    · rw [if_neg hk] at h
      exact List.mem_cons_of_mem _ (ih h)

theorem lookup_of_head_lt {es : List (Text × Bool)} {k : Text} (h : ∀ e ∈ es, k < e.1) :
    es.lookup k = none := by
  cases hl : es.lookup k with
  | none => rfl
  | some b => exact absurd (h _ (mem_of_lookup hl)) (List.lt_irrefl k)

theorem eq_of_lookup_eq {es fs : List (Text × Bool)} (he : es.Pairwise (fun a b => a.1 < b.1))
    (hf : fs.Pairwise (fun a b => a.1 < b.1)) (h : ∀ k, es.lookup k = fs.lookup k) : es = fs := by
  induction es generalizing fs with
  | nil =>
    cases fs with
    | nil => rfl
    | cons f fs =>
      have hk := h f.1
      rw [lookup_cons_ite, if_pos rfl] at hk
      cases hk
  | cons e es ih =>
    obtain ⟨k, v⟩ := e
    obtain ⟨hek, hes⟩ := List.pairwise_cons.1 he
    cases fs with
    | nil =>
      have hk := h k
      rw [lookup_cons_ite, if_pos rfl] at hk
      cases hk
    | cons f fs =>
      obtain ⟨j, w⟩ := f
      obtain ⟨hfj, hfs⟩ := List.pairwise_cons.1 hf
      -- the least keys of two maps with the same flags are the same
      have hkj : k = j := by
        have hk := h k
        have hj := h j
        rw [lookup_cons_ite, if_pos rfl, lookup_cons_ite] at hk
        rw [lookup_cons_ite, lookup_cons_ite, if_pos rfl] at hj
        by_cases hne : k = j
        · exact hne
        · rw [if_neg hne] at hk
          rw [if_neg (Ne.symm hne)] at hj
          have h1 := hfj _ (mem_of_lookup hk.symm)
          have h2 := hek _ (mem_of_lookup hj)
          exact absurd (List.lt_trans h1 h2) (List.lt_irrefl j)
      subst hkj
      have hv : v = w := by
        have hk := h k
        rw [lookup_cons_ite, lookup_cons_ite, if_pos rfl, if_pos rfl] at hk
        exact Option.some.inj hk
      rw [hv, ih hes hfs]
      intro i
      by_cases hi : i = k
      · rw [hi, lookup_of_head_lt hek, lookup_of_head_lt hfj]
      · have hi' := h i
        rwa [lookup_cons_ite, lookup_cons_ite, if_neg hi, if_neg hi] at hi'

theorem get?_ext {m n : WidgetMap} (h : ∀ id, m.get? id = n.get? id) : m = n :=
  WidgetMap.ext (eq_of_lookup_eq m.sorted n.sorted h)

end WidgetMap

namespace Tally

/-- Everything that a render has counted, without the flags. -/
def core (t : Tally) : Tally := { t with widgets := .empty }

/-- The map of a tally shows widgets with the flags `g`, and has the widgets seen so far. -/
structure Shows (o : Options) (g : Text → Bool) (t : Tally) : Prop where
  flag : ∀ id, t.widgets.flag o.expandByDefault id = g id
  seen : ∀ id ∈ t.seen, t.widgets.get? id = some (g id)

theorem core_titles {t u : Tally} (h : t.core = u.core) : t.titles = u.titles :=
  show t.core.titles = u.core.titles from congrArg _ h

theorem core_spoilerboxes {t u : Tally} (h : t.core = u.core) : t.spoilerboxes = u.spoilerboxes :=
  show t.core.spoilerboxes = u.core.spoilerboxes from congrArg _ h

theorem core_cards {t u : Tally} (h : t.core = u.core) : t.cards = u.cards :=
  show t.core.cards = u.core.cards from congrArg _ h

theorem core_seen {t u : Tally} (h : t.core = u.core) : t.seen = u.seen :=
  show t.core.seen = u.core.seen from congrArg _ h

variable {o : Options} {g : Text → Bool} {t : Tally}

theorem shows_start (o : Options) (m : WidgetMap) :
    Shows o (m.flag o.expandByDefault) ({ widgets := m } : Tally) :=
  ⟨fun _ => rfl, fun id h => by simp at h⟩

theorem Shows.of_eq {u : Tally} (h : t.Shows o g) (hw : u.widgets = t.widgets)
    (hs : u.seen = t.seen) : u.Shows o g :=
  ⟨fun id => by rw [hw]; exact h.flag id, fun id hid => by rw [hw]; exact h.seen id (hs ▸ hid)⟩

theorem register_shows (h : t.Shows o g) (id : Text) :
    (t.register o.expandByDefault id).1 = g id ∧ (t.register o.expandByDefault id).2.Shows o g := by
  have hid : (t.widgets.get? id).getD o.expandByDefault = g id := h.flag id
  refine ⟨by rw [register_fst, hid], ⟨?_, ?_⟩⟩
  · intro k
    show (t.widgets.ensure id o.expandByDefault).flag o.expandByDefault k = g k
    rw [WidgetMap.flag_ensure]
    exact h.flag k
  · intro k hk
    show (t.widgets.ensure id o.expandByDefault).get? k = some (g k)
    rw [WidgetMap.get?_ensure]
    by_cases hkid : k = id
    · rw [if_pos hkid, hkid, hid]
    · rw [if_neg hkid]
      rcases List.mem_cons.1 hk with hk | hk
      · exact absurd hk hkid
      · exact h.seen k hk

theorem register_core (default : Bool) (id : Text) :
    (t.register default id).2.core = { t.core with seen := id :: t.core.seen } := rfl

theorem register_seen (default : Bool) (id : Text) :
    (t.register default id).2.seen = id :: t.seen := rfl

end Tally

namespace Box

variable {o : Options} {k : BoxKind}

/-- The number of a box and the counters with it. -/
def count (k : BoxKind) (title : Text) (t : Tally) : Nat × Tally :=
  match k with
  | .named => t.countTitle title
  | .spoiler => t.nextSpoilerbox

/-- The id of the next box with a title. -/
def nextId (k : BoxKind) (title : Text) (t : Tally) : Text :=
  WidgetId.make k.tag title (count k title t).1

theorem openFrame_eq (title : Text) (t : Tally) :
    openFrame o k title t =
      ({ title, id := nextId k title t,
         expanded := ((count k title t).2.register o.expandByDefault (nextId k title t)).1 },
        ((count k title t).2.register o.expandByDefault (nextId k title t)).2) := by
  cases k <;> rfl

theorem nextId_congr {t u : Tally} (h : t.core = u.core) (title : Text) :
    nextId k title t = nextId k title u := by
  cases k with
  | named => simp [nextId, count, Tally.countTitle, Tally.titleCount, Tally.core_titles h]
  | spoiler => simp [nextId, count, Tally.nextSpoilerbox, Tally.core_spoilerboxes h]

theorem count_core {t u : Tally} (h : t.core = u.core) (title : Text) :
    (count k title t).2.core = (count k title u).2.core := by
  obtain ⟨w, ts, sp, cs, seen⟩ := t
  obtain ⟨w', ts', sp', cs', seen'⟩ := u
  simp only [Tally.core, Tally.mk.injEq, true_and] at h
  obtain ⟨rfl, rfl, rfl, rfl⟩ := h
  cases k <;> rfl

theorem count_widgets (title : Text) (t : Tally) : (count k title t).2.widgets = t.widgets := by
  cases k <;> rfl

theorem count_seen (title : Text) (t : Tally) : (count k title t).2.seen = t.seen := by
  cases k <;> rfl

theorem openFrame_shows {g : Text → Bool} {t : Tally} (h : t.Shows o g) (title : Text) :
    (openFrame o k title t).1 = { title, id := nextId k title t, expanded := g (nextId k title t) } ∧
      (openFrame o k title t).2.Shows o g := by
  have hc : (count k title t).2.Shows o g := h.of_eq (count_widgets title t) (count_seen title t)
  have hr := Tally.register_shows hc (nextId k title t)
  rw [openFrame_eq]
  exact ⟨by rw [hr.1], hr.2⟩

theorem openFrame_core {t u : Tally} (h : t.core = u.core) (title : Text) :
    (openFrame o k title t).2.core = (openFrame o k title u).2.core := by
  rw [openFrame_eq, openFrame_eq, Tally.register_core, Tally.register_core, count_core h,
    nextId_congr h]

theorem openFrame_seen (title : Text) (t : Tally) :
    (openFrame o k title t).2.seen = nextId k title t :: t.seen := by
  rw [openFrame_eq, Tally.register_seen, count_seen]

/-! ## Boxes -/

/-- The ids that a run of box tags has shown only grow. -/
theorem seen_step (x : Nest × Tally) (t : Tag) : x.2.seen ⊆ (step o k x t).2.seen := by
  unfold step
  split
  · rename_i title _
    show x.2.seen ⊆ (openFrame o k title x.2).2.seen
    rw [openFrame_seen]
    exact List.subset_cons_self _ _
  · split <;> exact List.Subset.refl _

theorem seen_foldl (ts : List Tag) (x : Nest × Tally) :
    x.2.seen ⊆ (ts.foldl (step o k) x).2.seen := by
  induction ts generalizing x with
  | nil => exact List.Subset.refl _
  | cons t ts ih => exact List.Subset.trans (seen_step x t) (ih (step o k x t))

theorem shows_step {g : Text → Bool} {x : Nest × Tally} (h : x.2.Shows o g) (t : Tag) :
    (step o k x t).2.Shows o g := by
  unfold step
  split
  · exact (openFrame_shows h _).2
  · split <;> exact h

theorem shows_foldl {g : Text → Bool} (ts : List Tag) {x : Nest × Tally} (h : x.2.Shows o g) :
    (ts.foldl (step o k) x).2.Shows o g := by
  induction ts generalizing x with
  | nil => exact h
  | cons t ts ih => exact ih (shows_step h t)

/-- Two runs of the same tags do the same, if their maps agree on the widgets that are shown. -/
theorem step_agrees {f g : Text → Bool} {n : Nest} {t u : Tally} (h : t.core = u.core)
    (ht : t.Shows o f) (hu : u.Shows o g) (tag : Tag)
    (hfg : ∀ id ∈ (step o k (n, t) tag).2.seen, f id = g id) :
    (step o k (n, t) tag).1 = (step o k (n, u) tag).1 ∧
      (step o k (n, t) tag).2.core = (step o k (n, u) tag).2.core := by
  unfold step at hfg ⊢
  split at hfg
  · rename_i title _
    simp only at hfg ⊢
    have hid : f (nextId k title t) = g (nextId k title t) := by
      apply hfg
      rw [openFrame_seen]
      exact List.mem_cons_self
    refine ⟨?_, openFrame_core h title⟩
    rw [(openFrame_shows ht title).1, (openFrame_shows hu title).1, ← nextId_congr h, hid]
  · split
    · exact ⟨rfl, h⟩
    · exact ⟨rfl, h⟩

theorem foldl_agrees {f g : Text → Bool} (ts : List Tag) {n : Nest} {t u : Tally}
    (h : t.core = u.core) (ht : t.Shows o f) (hu : u.Shows o g)
    (hfg : ∀ id ∈ (ts.foldl (step o k) (n, t)).2.seen, f id = g id) :
    (ts.foldl (step o k) (n, t)).1 = (ts.foldl (step o k) (n, u)).1 ∧
      (ts.foldl (step o k) (n, t)).2.core = (ts.foldl (step o k) (n, u)).2.core := by
  induction ts generalizing n t u with
  | nil => exact ⟨rfl, h⟩
  | cons tag ts ih =>
    simp only [List.foldl_cons] at hfg ⊢
    obtain ⟨hn, hc⟩ := step_agrees h ht hu tag fun id hid => hfg id (seen_foldl ts _ hid)
    have ht' := shows_step (k := k) (x := (n, t)) ht tag
    have hu' := shows_step (k := k) (x := (n, u)) hu tag
    generalize step o k (n, t) tag = x at *
    generalize step o k (n, u) tag = y at *
    obtain ⟨m, t'⟩ := x
    obtain ⟨m', u'⟩ := y
    obtain rfl : m = m' := hn
    exact ih hc ht' hu' hfg

end Box

/-! ## A whole render -/

/-- A rewriting of a text and a tally that uses the flags of the widgets it shows, and no others. -/
structure Steady (o : Options) (F : Text × Tally → Text × Tally) : Prop where
  seen : ∀ x t, t.seen ⊆ (F (x, t)).2.seen
  shows : ∀ x t g, t.Shows o g → (F (x, t)).2.Shows o g
  agrees : ∀ x t u f g, t.core = u.core → t.Shows o f → u.Shows o g →
    (∀ id ∈ (F (x, t)).2.seen, f id = g id) →
    (F (x, t)).1 = (F (x, u)).1 ∧ (F (x, t)).2.core = (F (x, u)).2.core

namespace Steady

variable {o : Options}

theorem id : Steady o id where
  seen _ _ := List.Subset.refl _
  shows _ _ _ h := h
  agrees _ _ _ _ _ h _ _ _ := ⟨rfl, h⟩

theorem comp {F G : Text × Tally → Text × Tally} (hG : Steady o G) (hF : Steady o F) :
    Steady o (fun x => G (F x)) where
  seen x t := List.Subset.trans (hF.seen x t) (hG.seen _ _)
  shows x t g h := hG.shows _ _ g (hF.shows x t g h)
  agrees x t u f g h ht hu hfg := by
    obtain ⟨hx, hc⟩ := hF.agrees x t u f g h ht hu fun id hid => hfg id (hG.seen _ _ hid)
    have ht' := hF.shows x t f ht
    have hu' := hF.shows x u g hu
    generalize F (x, t) = y at *
    generalize F (x, u) = z at *
    obtain ⟨y, t'⟩ := y
    obtain ⟨z, u'⟩ := z
    obtain rfl : y = z := hx
    exact hG.agrees y t' u' f g hc ht' hu' hfg

theorem foldl {α : Type} {F : Text × Tally → α → Text × Tally}
    {as : List α} (h : ∀ a ∈ as, Steady o fun x => F x a) : Steady o fun x => as.foldl F x := by
  induction as with
  | nil => exact id
  | cons a as ih =>
    have ha := h a List.mem_cons_self
    exact comp (ih fun b hb => h b (List.mem_cons_of_mem _ hb)) ha

/-- A change of the text that asks the tally for the next hover card only. -/
theorem of_cards {F : Text × Tally → Text × Tally} (A : Text → Nat → Text) (B : Text → Nat → Nat)
    (h : ∀ x t, F (x, t) = (A x t.cards, { t with cards := B x t.cards })) : Steady o F where
  seen x t := by
    rw [h]
    exact List.Subset.refl _
  shows x t g ht := by
    rw [h]
    exact ht.of_eq rfl rfl
  agrees x t u f g hc ht hu hfg := by
    rw [h, h, Tally.core_cards hc]
    refine ⟨rfl, ?_⟩
    exact congrArg (fun v : Tally => { v with cards := B x u.cards }) hc

theorem of_text {F : Text × Tally → Text × Tally} (A : Text → Text)
    (h : ∀ x t, F (x, t) = (A x, t)) : Steady o F :=
  of_cards (fun x _ => A x) (fun _ n => n) h

theorem rule (r : Rule) : Steady o (r.apply o) := by
  obtain ⟨name, p, a⟩ := r
  cases a with
  | replace f => exact of_text (p.substitute f) fun x t => rfl
  | numbered f =>
    exact of_cards (fun x n => (Piece.fillFrom (f o) n (p.pieces x)).1)
      (fun x n => (Piece.fillFrom (f o) n (p.pieces x)).2) fun x t => rfl

theorem applyAll (rs : List Rule) : Steady o (Rule.applyAll o rs) :=
  foldl fun r _ => rule r

theorem boxes (k : BoxKind) : Steady o (Box.resolve o k) where
  seen x t := Box.seen_foldl (Box.split k (Tag.scan x)).1 ({}, t)
  shows x t g h := Box.shows_foldl (Box.split k (Tag.scan x)).1 (x := ({}, t)) h
  agrees x t u f g h ht hu hfg := by
    obtain ⟨hn, hc⟩ := Box.foldl_agrees _ h ht hu hfg
    exact ⟨by rw [Box.resolve, Box.resolve, hn], hc⟩

theorem step (s : Step) : Steady o (s.apply o) := by
  cases s with
  | rules stage => exact applyAll stage.rules
  | size =>
    show Steady o fun x => ((Rule.size? o.allowedSizes).map fun r => r.apply o x).getD x
    cases Rule.size? o.allowedSizes with
    | none => exact id
    | some r => exact rule r
  | boxes k => exact boxes k
  | lists =>
    have hsplit : Steady o fun x => (Item.split x.1, x.2) := of_text Item.split fun x t => rfl
    exact comp (F := Rule.applyAll o Item.rules) hsplit (applyAll Item.rules)
  | links => exact of_text Autolink.autolink fun x t => rfl

/-- The steps of a render use the flags of the widgets they show, and no others. -/
theorem pipeline : Steady o fun x => Step.pipeline.foldl (fun x s => s.apply o x) x :=
  foldl fun s _ => step s

end Steady

namespace Page

variable (o : Options) (source : Text) (m : WidgetMap)

/-- The ids of the widgets that a render shows, the last first. -/
def shownIds : List Text := (run o (Guarded.protect source o.codeBlocks).text m).2.seen

theorem run_shows (text : Text) :
    (run o text m).2.Shows o (m.flag o.expandByDefault) :=
  Steady.pipeline.shows text { widgets := m } _ (Tally.shows_start o m)

/-- After a render, the map has the widgets it showed, with the flags they were shown with. -/
theorem get?_render (id : Text) :
    (render o source m).widgets.get? id =
      if id ∈ shownIds o source m then some (m.flag o.expandByDefault id) else none := by
  rw [widgets_render, Tally.finish, WidgetMap.get?_retain]
  simp only [List.contains_iff_mem]
  show (if id ∈ shownIds o source m then _ else none) = _
  by_cases hid : id ∈ shownIds o source m
  · rw [if_pos hid, if_pos hid]
    exact (run_shows o m _).seen id hid
  · rw [if_neg hid, if_neg hid]

/-- Rendering a document again from the flags that a render left gives the same page. -/
theorem render_render : render o source (render o source m).widgets = render o source m := by
  have hflag : ∀ id ∈ shownIds o source m, m.flag o.expandByDefault id =
      (render o source m).widgets.flag o.expandByDefault id := by
    intro id hid
    rw [WidgetMap.flag, WidgetMap.flag, get?_render, if_pos hid]
    rfl
  obtain ⟨hx, hc⟩ := Steady.pipeline.agrees (Guarded.protect source o.codeBlocks).text
    { widgets := m } { widgets := (render o source m).widgets } _ _ rfl (Tally.shows_start o m)
    (Tally.shows_start o _) hflag
  have hids : shownIds o source m = shownIds o source (render o source m).widgets :=
    Tally.core_seen hc
  have hw : (render o source (render o source m).widgets).widgets = (render o source m).widgets := by
    apply WidgetMap.get?_ext
    intro id
    rw [get?_render, get?_render, ← hids]
    by_cases hid : id ∈ shownIds o source m
    · rw [if_pos hid, if_pos hid, hflag id hid]
    · rw [if_neg hid, if_neg hid]
  have hhtml : (render o source (render o source m).widgets).html = (render o source m).html := by
    rw [html_render, html_render]
    exact congrArg _ hx.symm
  show Page.mk _ _ _ = Page.mk _ _ _
  rw [Page.mk.injEq]
  exact ⟨hhtml, hw, rfl⟩

end Page

end BBCode
