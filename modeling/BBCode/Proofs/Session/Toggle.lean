import BBCode.Proofs.Doc.Page
import BBCode.Proofs.Session.Cache
import BBCode.Proofs.Template.Page

/-!
# BBCode.Proofs.Session.Toggle

What becomes of a page when the flag of a widget is flipped. The next render shows the widget with
the flag that flipping returned and every other widget as before. That flag is the other one than
the widget was shown with, unless the session has no flag for the widget and widgets start
expanded: flipping counts a widget without a flag as collapsed, a render takes the default.

* `render_toggle`: the pages with and without the flip, and when they differ.
* `toggle_rendered`: a widget of the page rendered last is flipped from the flag it is shown with.
* `toggle_dropped`: a widget that is shown expanded, and as expanded as before after the flip.
-/

namespace BBCode

open Widget Box

namespace WidgetMap

/-- A flip returns the other flag than the widget is shown with, if the map has the widget or
widgets start collapsed, and only then. -/
theorem toggle_fst_eq_not (m : WidgetMap) (id : Text) (default : Bool) :
    (m.toggle id).1 = !m.flag default id ↔ (m.get? id).isSome = true ∨ default = false := by
  show (!(m.get? id).getD false) = !(m.get? id).getD default ↔ _
  cases m.get? id with
  | none => cases default <;> simp
  | some b => simp

end WidgetMap

/-- Whether the page is kept or made, a render shows the flags that the session holds. -/
theorem Good.render {earlier : List Operation} {s : Session} {u : Uncached} (h : Good earlier s u)
    (source : Text) (generation : Nat) :
    (s.render source generation).1 = (Page.render s.options source s.widgets).html ∧
      (s.render source generation).2.widgets =
        (Page.render s.options source s.widgets).widgets := by
  obtain ⟨hanswer, -, hnext⟩ := h.perform (.render source generation)
  rw [Uncached.perform, ← h.options, ← h.widgets] at hanswer hnext
  exact ⟨Answer.html.inj hanswer, hnext.widgets⟩

namespace Session

variable (o : Options) (host : Host) (ops : List Operation)

theorem options_perform (s : Session) (op : Operation) : (s.perform op).2.options = s.options := by
  cases op with
  | render source generation =>
    show (s.render source generation).2.options = s.options
    rw [render]
    split <;> rfl
  | toggle id => rfl
  | set id b => rfl
  | restore m => rfl

theorem options_after (s : Session) : (s.after ops).options = s.options := by
  induction ops generalizing s with
  | nil => rfl
  | cons op ops ih =>
    show (after (s.perform op).2 ops).options = s.options
    rw [ih, options_perform]

/-- After any operations, a session renders a document from the flags it holds, and holds the
flags that the render leaves. -/
theorem render_after (source : Text) (generation : Nat) :
    let s := ({ options := o, host } : Session).after ops
    (s.render source generation).1 = (Page.render o source s.widgets).html ∧
      (s.render source generation).2.widgets = (Page.render o source s.widgets).widgets := by
  intro s
  have ho : s.options = o := options_after ops _
  rw [← ho]
  exact (Good.after o host ops).render source generation

/-- For every document there is one template whose holes are the spots of its widgets, such that
after any operations a render fills each hole from the flag of its widget, and after a flip as
well, with the flag that the flip returned for its widget and the flags of before for all others;
the session then holds the flags that are shown. The flag returned is the other one than was
shown before, unless the session has none for the widget and widgets start expanded. -/
theorem render_toggle (source : Text) : ∃ page : Template Widget.Hole,
    let s := ({ options := o, host } : Session).after ops
    (∀ h : Widget.Hole, .slot h ∈ page → h.id ∈ Page.shownIds o source s.widgets) ∧
    ∀ (generation : Nat) (id : Text),
      let shown := s.widgets.flag o.expandByDefault
      let flipped := fun k => if k = id then (s.toggleWidget id).1 else shown k
      (s.render source generation).1 = Template.fill (Hole.text shown) page ∧
        ((s.toggleWidget id).2.render source generation).1 =
          Template.fill (Hole.text flipped) page ∧
        (∀ k, ((s.toggleWidget id).2.render source generation).2.widgets.get? k =
          if k ∈ Page.shownIds o source s.widgets then some (flipped k) else none) ∧
        ((s.toggleWidget id).1 = !shown id ↔
          (s.widgets.get? id).isSome = true ∨ o.expandByDefault = false) := by
  obtain ⟨page, hpage, hids, hshown⟩ := Page.exists_template o source
  refine ⟨page, hids _, fun generation id => ?_⟩
  intro shown flipped
  have hflipped : ((toggleWidget _ id).2.widgets).flag o.expandByDefault = flipped :=
    funext fun k => WidgetMap.flag_toggle _ id k o.expandByDefault
  obtain ⟨hhtml, -⟩ := render_after o host ops source generation
  -- the flip is one more operation
  obtain ⟨hhtml', hwidgets'⟩ := render_after o host (ops ++ [.toggle id]) source generation
  rw [after_append] at hhtml' hwidgets'
  refine ⟨?_, ?_, fun k => ?_, WidgetMap.toggle_fst_eq_not _ id o.expandByDefault⟩
  · rw [hhtml, hpage]
  · rw [← hflipped]
    exact hhtml'.trans (hpage _)
  · have hget := Page.get?_render o source
      (toggleWidget (after { options := o, host } ops) id).2.widgets k
    rw [hflipped, hshown _ (after { options := o, host } ops).widgets] at hget
    rw [← hget]
    exact congrArg (fun m => WidgetMap.get? m k) hwidgets'

/-- A widget of the page that a session has just rendered is flipped from the flag it is shown
with. -/
theorem toggle_rendered (source : Text) (generation : Nat) (id : Text)
    (h : id ∈ Page.shownIds o source (({ options := o, host } : Session).after ops).widgets) :
    let t := ((({ options := o, host } : Session).after ops).render source generation).2
    (t.toggleWidget id).1 = !t.widgets.flag o.expandByDefault id := by
  intro t
  have hw := (render_after o host ops source generation).2
  refine (WidgetMap.toggle_fst_eq_not t.widgets id o.expandByDefault).2 (.inl ?_)
  rw [hw, Page.get?_render, if_pos h]
  rfl

end Session

namespace Page

/-- A box with a letter in it. -/
def letterBox : Doc .flow :=
  .element { kind := .box, value := "A".toList } (.text "x".toList .nil) .nil

theorem render_letterBox {o : Options} (ho : o.Plain) (m : WidgetMap) :
    (render o letterBox.source m).html = Html.widget "A".toList "x".toList
        (WidgetId.make "box".toList "A".toList 1)
        (m.flag o.expandByDefault (WidgetId.make "box".toList "A".toList 1)) ∧
      WidgetId.make "box".toList "A".toList 1 ∈ shownIds o letterBox.source m := by
  have hbox : Element.Valid o { kind := .box, value := "A".toList } :=
    ⟨⟨by decide, by decide⟩, fun _ => by decide, by simp [Kind.marks?], by simp, by simp⟩
  have hd : letterBox.Valid o :=
    ⟨hbox, by simp [Kind.nests], ⟨⟨by decide, by decide⟩, rfl, trivial⟩, trivial⟩
  have hids : letterBox.widgetIds = [WidgetId.make "box".toList "A".toList 1] := rfl
  have hhtml : letterBox.html o (m.flag o.expandByDefault) = Html.widget "A".toList "x".toList
      (WidgetId.make "box".toList "A".toList 1)
      (m.flag o.expandByDefault (WidgetId.make "box".toList "A".toList 1)) := by
    rw [widget_eq]
    simp only [Doc.html, letterBox, Style.write, Style.html, Element.before, Element.after,
      Element.widget?, Element.number, List.countP_nil, List.append_nil, List.append_assoc]
  obtain ⟨done, t, hall, hseen, hrun⟩ := run_staged ho hd m
  have hprotect := Guarded.protect_source ho hd (m.flag o.expandByDefault)
  constructor
  · rw [html_render, hprotect, hrun, ← hhtml]
    exact Guarded.restore_staged hall ho hd
  · rw [shownIds, hprotect, hrun]
    exact (hseen _).2 (hids ▸ List.mem_singleton_self _)

end Page

/-- Widgets start expanded, a page with a box is rendered, and the session is given other flags,
none of them for the box. A render shows the box expanded; flipping the box returns `true`, and
a render after the flip shows it expanded all the same. -/
theorem Session.toggle_dropped :
    let source := "[box=A]x[/box]".toList
    let id := WidgetId.make "box".toList "A".toList 1
    let s := ({ options := { expandByDefault := true } } : Session).after
      [.render source 1, .restore .empty]
    id ∈ Page.shownIds { expandByDefault := true } source s.widgets ∧
      (s.render source 1).1 = Html.widget "A".toList "x".toList id true ∧
      (s.toggleWidget id).1 = true ∧
      ((s.toggleWidget id).2.render source 1).1 = Html.widget "A".toList "x".toList id true := by
  intro source id s
  have ho : ({ expandByDefault := true } : Options).Plain := ⟨rfl, ⟨by decide, by decide⟩⟩
  have hsource : source = Page.letterBox.source := by decide
  obtain ⟨hshown, hid⟩ := Page.render_letterBox ho s.widgets
  obtain ⟨hflipped, -⟩ := Page.render_letterBox ho (s.toggleWidget id).2.widgets
  have hflag : (s.toggleWidget id).2.widgets.flag true id = true := by
    rw [show (s.toggleWidget id).2.widgets = (WidgetMap.empty.toggle id).2 from rfl,
      WidgetMap.flag_toggle, if_pos rfl]
    rfl
  have hrender := render_after { expandByDefault := true } {} [.render source 1, .restore .empty]
    source 1
  have hrender' := render_after { expandByDefault := true } {}
    [.render source 1, .restore .empty, .toggle id] source 1
  rw [hsource] at hrender hrender' ⊢
  refine ⟨hid, hrender.1.trans hshown, rfl, hrender'.1.trans (hflipped.trans ?_)⟩
  exact congrArg (Html.widget _ _ id) hflag

end BBCode
