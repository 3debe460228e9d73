import BBCode.Proofs.Doc.Boxes
import BBCode.Proofs.Doc.Guard
import BBCode.Proofs.Doc.Items
import BBCode.Proofs.Doc.Links

/-!
# BBCode.Proofs.Doc.Page

Rendering the markup of a tree gives the HTML of the tree. Each step of the pipeline finds the
elements it is about and no others, so after the last one all elements are HTML, whatever the
order of the steps and however the tree is nested.

* `run_staged`: what the steps make of a tree whose code regions are lifted out.
* `html_source`: what a render makes of the markup of a tree.
-/

namespace BBCode

variable {o : Options} {d : Doc .flow}

namespace Step

/-- The kinds of elements that a step writes as HTML, the last first. -/
def kinds : Step → List Kind
  | rules s => s.kinds.reverse
  | size => [.size]
  | boxes k => [k.kind]
  | lists => [.list, .listOf]
  | links => []

/-- The kinds of elements that are HTML after the first `n` steps, the last first. -/
def kindsBefore (n : Nat) : List Kind := (pipeline.take n).reverse.flatMap kinds

theorem kindsBefore_succ {n : Nat} {s : Step} (h : pipeline[n]? = some s) :
    kindsBefore (n + 1) = s.kinds ++ kindsBefore n := by
  rw [kindsBefore, List.take_add_one, h, List.reverse_append, List.flatMap_append, kindsBefore]
  simp

/-- The steps that write elements and count nothing. -/
def isPlain : Step → Bool
  | rules s => [Stage.formatting, .color, .specials, .quotes, .inlineCode, .layout, .trailing].contains s
  | size => true
  | boxes _ | lists | links => false

theorem apply_staged {flag : Text → Bool} {done : List Kind} {items : Bool} {s : Step}
    (hs : s.isPlain = true) (hdone : (s.kinds ++ done).Nodup) (ho : o.Plain) (hd : d.Valid o)
    (t : Tally) :
    s.apply o ((Style.staged o flag done items).write [] d, t) =
      ((Style.staged o flag (s.kinds ++ done) items).write [] d, t) := by
  cases s with
  | rules s => exact Stage.apply_staged (List.contains_iff_mem.1 hs) hdone ho hd t
  | size => exact apply_size (List.nodup_cons.1 hdone).1 ho hd t
  | boxes k => cases hs
  | lists => cases hs
  | links => cases hs

end Step

namespace Page

/-! ## One step after the other -/

/-- The first `n` steps leave the tree like this, with items as HTML if `items` says so, and have
counted and seen `t`. -/
def Reaches (o : Options) (d : Doc .flow) (m : WidgetMap) (n : Nat) (items : Bool) (t : Tally) :
    Prop :=
  (Step.pipeline.take n).foldl (fun x s => s.apply o x)
      ((Style.staged o (m.flag o.expandByDefault) [] false).write [] d, { widgets := m }) =
    ((Style.staged o (m.flag o.expandByDefault) (Step.kindsBefore n) items).write [] d, t)

namespace Reaches

variable {m : WidgetMap} {n : Nat} {items items' : Bool} {t t' : Tally} {s : Step}

theorem next (h : Reaches o d m n items t) (hs : Step.pipeline[n]? = some s)
    (happ : s.apply o ((Style.staged o (m.flag o.expandByDefault) (Step.kindsBefore n) items).write [] d, t) =
      ((Style.staged o (m.flag o.expandByDefault) (s.kinds ++ Step.kindsBefore n) items').write [] d, t')) :
    Reaches o d m (n + 1) items' t' := by
  rw [Reaches, List.take_add_one, hs, List.foldl_append, h, Step.kindsBefore_succ hs]
  exact happ

theorem plain (h : Reaches o d m n items t) (hs : Step.pipeline[n]? = some s)
    (hplain : s.isPlain = true) (hdone : (s.kinds ++ Step.kindsBefore n).Nodup) (ho : o.Plain)
    (hd : d.Valid o) : Reaches o d m (n + 1) items t :=
  h.next hs (Step.apply_staged hplain hdone ho hd t)

end Reaches

/-- The steps write all elements as HTML, and see the widgets of the tree. -/
theorem run_staged (ho : o.Plain) (hd : d.Valid o) (m : WidgetMap) :
    ∃ (done : List Kind) (t : Tally), (∀ k, k ∈ done) ∧ (∀ id, id ∈ t.seen ↔ id ∈ d.widgetIds) ∧
      run o ((Style.staged o (m.flag o.expandByDefault) [] false).write [] d) m =
        ((Style.staged o (m.flag o.expandByDefault) done true).write [] d, t) := by
  obtain ⟨hspoiler, hcards, hseen⟩ := Box.tallied_boxes (o := o) m d.nodes rfl rfl
  have h0 : Reaches o d m 0 false { widgets := m } := rfl
  have h1 := h0.next rfl (Stage.apply_lineBreaks ho hd _)
  have h2 := h1.plain rfl rfl (by decide) ho hd
  have h3 := h2.plain rfl rfl (by decide) ho hd
  have h4 := h3.plain rfl rfl (by decide) ho hd
  have h5 := h4.plain rfl rfl (by decide) ho hd
  have h6 := h5.next rfl (Box.resolve_staged (by decide) ho hd (Box.tallied_start m))
  have h7 := h6.next rfl (Box.resolve_staged (by decide) ho hd hspoiler)
  have h8 := h7.plain rfl rfl (by decide) ho hd
  have h9 := h8.plain rfl rfl (by decide) ho hd
  have h10 := h9.plain rfl rfl (by decide) ho hd
  have h11 := h10.next rfl (Stage.apply_linksAndMedia (by decide) ho hd hcards)
  have h12 := h11.next rfl (Item.resolve_staged (by decide) ho hd _)
  have h13 := h12.plain rfl rfl (by decide) ho hd
  have h14 := h13.next rfl (Stage.apply_collapseBreaks (unbroken_staged ho hd []) _)
  have hall : ∀ k, k ∈ Step.kindsBefore 14 := fun k => by cases k <;> decide
  have h15 := h14.next rfl (congrArg (·, _) (Autolink.autolink_staged hall ho hd))
  refine ⟨Step.kindsBefore 15, _, hall, ?_, h15⟩
  exact hseen

/-- Rendering the markup of a tree gives the HTML of the tree, with each widget in the state that
the start map says, and leaves the flags of the widgets of the tree. -/
theorem html_source {o : Options} {d : Doc .flow} (ho : o.Plain) (hd : d.Valid o) (m : WidgetMap) :
    (render o d.source m).html = d.html o (m.flag o.expandByDefault) ∧
      ∀ id, (render o d.source m).widgets.get? id =
        if id ∈ d.widgetIds then some (m.flag o.expandByDefault id) else none := by
  obtain ⟨done, t, hall, hseen, hrun⟩ := run_staged ho hd m
  have hprotect := Guarded.protect_source ho hd (m.flag o.expandByDefault)
  refine ⟨?_, fun id => ?_⟩
  · rw [html_render, hprotect, hrun]
    exact Guarded.restore_staged hall ho hd
  · have hids : id ∈ shownIds o d.source m ↔ id ∈ d.widgetIds := by
      rw [shownIds, hprotect, hrun]
      exact hseen id
    rw [get?_render]
    simp only [hids]

/-- A box in a box of the same title, a list with a code region in it and a link. -/
def nested : Doc .flow :=
  .element { kind := .box, value := "t".toList }
    (.element { kind := .box, value := "t".toList } (.text "a".toList .nil)
      (.element { kind := .list } (.item (.code "[*]<br>".toList .nil) .nil) .nil))
    (.element { kind := .link, value := "http://a.b".toList } (.text "c".toList .nil) .nil)

theorem html_source_nested :
    nested.source = ("[box=t][box=t]a[/box][list][*][code][*]<br>[/code][/list][/box]" ++
        "[url=http://a.b]c[/url]").toList ∧
      ({} : Options).Plain ∧ nested.Valid {} ∧
      (render {} nested.source .empty).html = nested.html {} (WidgetMap.flag .empty false) ∧
      ∀ id, (render {} nested.source .empty).widgets.get? id =
        if id ∈ nested.widgetIds then some (WidgetMap.flag .empty false id) else none := by
  have ho : ({} : Options).Plain := ⟨rfl, ⟨by decide, by decide⟩⟩
  have htitle : PlainValue "t".toList := ⟨by decide, by decide⟩
  have hbox : Element.Valid {} { kind := .box, value := "t".toList } :=
    ⟨htitle, fun _ => by decide, by simp [Kind.marks?], by simp, by simp⟩
  have hlist : Element.Valid {} { kind := .list } :=
    ⟨⟨by simp, by simp⟩, fun _ => by decide, by simp, by simp, by simp⟩
  have hlink : Element.Valid {} { kind := .link, value := "http://a.b".toList } :=
    ⟨⟨by decide, by decide⟩, by simp, by simp [Kind.marks?], by simp, by simp⟩
  have htext : PlainText "a".toList ∧ PlainText "c".toList :=
    ⟨⟨by decide, by decide⟩, by decide, by decide⟩
  have hcode : CodeText "[*]<br>".toList := ⟨by decide, by decide⟩
  have hd : nested.Valid {} := by
    refine ⟨hbox, by simp [Kind.nests], ⟨hbox, by simp [Kind.nests], ⟨htext.1, rfl, trivial⟩,
      hlist, fun _ => ?_, ⟨⟨hcode, trivial⟩, trivial⟩, trivial⟩, hlink, fun _ => ?_,
      ⟨htext.2, rfl, trivial⟩, trivial⟩
    · intro e he
      simp [Doc.nodes] at he
    · intro e he
      simp [Doc.nodes] at he
  exact ⟨by decide, ho, hd, html_source ho hd .empty⟩

end Page

end BBCode
