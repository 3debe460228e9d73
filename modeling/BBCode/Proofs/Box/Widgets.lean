import BBCode.Proofs.Box.Forest
import BBCode.Proofs.Template.Page

/-!
# BBCode.Proofs.Box.Widgets

The widget map that a render leaves. Its keys are the ids of the boxes that the two steps for boxes
resolve, which depend on the document only; the flags of a start map decide how a box is shown and
nothing else.

* `apply_boxes`: at its step, a kind of boxes is resolved, numbered from one.
* `seen_run`: what a whole render has seen are the ids of both steps.
* `render_boxes`: the map a render leaves, and that it is a fixed point.
-/

namespace BBCode

open Box

namespace Step

/-- What the steps before `s` make of a protected text. -/
def before (o : Options) (text : Text) (m : WidgetMap) (s : Step) : Text × Tally :=
  (pipeline.takeWhile fun r => r ≠ s).foldl (fun x r => r.apply o x) (text, { widgets := m })

theorem before_named (o : Options) (text : Text) (m : WidgetMap) :
    before o text m (.boxes .named) =
      early.foldl (fun x r => r.apply o x) (text, { widgets := m }) := rfl

theorem run_eq_late (o : Options) (text : Text) (m : WidgetMap) :
    Page.run o text m = late.foldl (fun x r => r.apply o x)
      (resolve o .spoiler (before o text m (.boxes .spoiler))) := rfl

/-- Behind the boxes, no widget is shown. -/
theorem seen_late (o : Options) (x : Text) (t : Tally) :
    (late.foldl (fun x r => r.apply o x) (x, t)).2.seen = t.seen := by
  -- a family of one member without slots
  have hφ : ∀ (v : Unit) (a : Empty), Sealed ((fun _ a => nomatch a : Unit → Empty → Text) v a) :=
    fun v a => nomatch a
  obtain ⟨y, n, -, hlate⟩ := uniform_late hφ () o _ t.cards (.of_const x)
  exact congrArg (fun x => x.2.seen) (hlate () t rfl)

end Step

namespace Page

/-- The boxes of a kind that a render of a protected text resolves. -/
def boxes (o : Options) (text : Text) (m : WidgetMap) (k : BoxKind) : Forest k false :=
  forest k (Step.before o text m (.boxes k)).1

/-- The ids of the boxes that a render of a protected text resolves, those of named boxes first,
each kind in the order of its opening tags. -/
def boxIds (o : Options) (text : Text) (m : WidgetMap) : List Text :=
  idsAfter .named [] (boxes o text m .named).titles ++
    idsAfter .spoiler [] (boxes o text m .spoiler).titles

variable (o : Options) (text : Text) (m : WidgetMap)

/-- The steps before the named boxes leave the tally as it is. -/
theorem tally_before_named : (Step.before o text m (.boxes .named)).2 = { widgets := m } := by
  obtain ⟨A, hA⟩ := Step.textOnly_early o
  rw [Step.before_named]
  exact congrArg Prod.snd (hA text { widgets := m })

theorem opened_before_spoiler :
    Opened o .named (boxes o text m .named).titles { widgets := m }
      (Step.before o text m (.boxes .spoiler)).2 := by
  have hopened := (resolve_forest o .named (Step.before o text m (.boxes .named))).2
  rw [tally_before_named] at hopened
  exact hopened

/-- At the step for a kind of boxes, none is counted and widgets have the flags of the start
map. -/
theorem tally_before_boxes (k : BoxKind) :
    earlier k (Step.before o text m (.boxes k)).2 = [] ∧
      (Step.before o text m (.boxes k)).2.widgets.flag o.expandByDefault =
        m.flag o.expandByDefault := by
  cases k with
  | named =>
    rw [tally_before_named]
    exact ⟨rfl, rfl⟩
  | spoiler =>
    have hopened := opened_before_spoiler o text m
    exact ⟨hopened.other .spoiler (by decide), hopened.flag⟩

/-- The step for a kind of boxes writes those that close as widgets and the text from the hard
stop on as it is. -/
theorem apply_boxes (k : BoxKind) :
    ((Step.boxes k).apply o (Step.before o text m (.boxes k))).1 =
      (boxes o text m k).write (Forest.shown (m.flag o.expandByDefault)) [] ++
        (stopped k (Step.before o text m (.boxes k)).1).flatMap Tag.source := by
  obtain ⟨hnone, hflag⟩ := tally_before_boxes o text m k
  have hresolve := (resolve_forest o k (Step.before o text m (.boxes k))).1
  rw [hnone, hflag] at hresolve
  exact hresolve

theorem seen_run : (run o text m).2.seen = (boxIds o text m).reverse := by
  have hnamed := (opened_before_spoiler o text m).seen
  have hspoiler := (resolve_forest o .spoiler (Step.before o text m (.boxes .spoiler))).2.seen
  rw [(tally_before_boxes o text m .spoiler).1, hnamed] at hspoiler
  calc (run o text m).2.seen
      = (resolve o .spoiler (Step.before o text m (.boxes .spoiler))).2.seen := by
        rw [Step.run_eq_late]
        exact Step.seen_late o _ _
    _ = (boxIds o text m).reverse := by
        rw [hspoiler, boxIds, List.reverse_append]
        simp [earlier, boxes]

/-- Which boxes a render resolves does not depend on the start map. -/
theorem boxIds_eq (n : WidgetMap) : boxIds o text m = boxIds o text n := by
  have hids : ∀ m, ∀ id ∈ (run o text m).2.seen, (fun _ => True) id := fun _ _ _ => trivial
  have hseen := (run_templated o text hids).2 m n
  rw [seen_run, seen_run] at hseen
  exact List.reverse_inj.1 hseen

/-- The keys of the map after a render are the ids of the boxes that it resolved: at its step, a
kind of boxes is resolved up to the hard stop and stays as it is from there on, and code regions
are lifted out before. A key that was in the start map keeps its flag, a new one has the default
flag. The ids do not depend on the start map, and rendering the document again from the map that a
render left gives the same page with the same map. -/
theorem render_boxes (source : Text) :
    (∀ k, let x := Step.before o (Guarded.protect source o.codeBlocks).text m (.boxes k)
      let resolved := boxes o (Guarded.protect source o.codeBlocks).text m k
      split k (Tag.scan x.1) = (resolved.tags, stopped k x.1) ∧
        ((Step.boxes k).apply o x).1 =
          resolved.write (Forest.shown (m.flag o.expandByDefault)) [] ++
            (stopped k x.1).flatMap Tag.source) ∧
      (∀ id, (render o source m).widgets.get? id =
        if id ∈ boxIds o (Guarded.protect source o.codeBlocks).text m then
          some ((m.get? id).getD o.expandByDefault)
        else none) ∧
      (∀ n, boxIds o (Guarded.protect source o.codeBlocks).text n =
        boxIds o (Guarded.protect source o.codeBlocks).text m) ∧
      render o source (render o source m).widgets = render o source m := by
  refine ⟨fun k => ⟨split_scan k _, apply_boxes o _ m k⟩, fun id => ?_, fun n => boxIds_eq o _ n m,
    render_render o source m⟩
  have hshown : shownIds o source m = (boxIds o (Guarded.protect source o.codeBlocks).text m).reverse :=
    seen_run o _ m
  rw [get?_render, hshown]
  simp only [List.mem_reverse]
  rfl

end Page

end BBCode
