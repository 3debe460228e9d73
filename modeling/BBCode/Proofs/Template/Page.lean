import BBCode.Proofs.Guard.Bodies
import BBCode.Proofs.Template.Items
import BBCode.Proofs.Template.Links
import BBCode.Proofs.Template.Widgets

/-!
# BBCode.Proofs.Template.Page

Where widget flags show on a page. Of everything that a render makes of a document, only three
spots in the markup of a widget depend on flags, and each on the flag of its own widget.

* `run_templated`: the steps make one templated family of all start maps.
* `exists_template`: a page is one template, filled from the flags.
* `html_eq_fill`: what a flip changes on it.
-/

namespace BBCode

open Widget Box

/-! ## The steps -/

namespace Step

/-- The steps before boxes are resolved, and those after. -/
def early : List Step :=
  [rules .lineBreaks, rules .formatting, rules .color, size, rules .specials]

def late : List Step :=
  [rules .quotes, rules .inlineCode, rules .layout, rules .linksAndMedia, lists, rules .trailing,
   rules .collapseBreaks, links]

theorem pipeline_eq : pipeline = early ++ [boxes .named, boxes .spoiler] ++ late := rfl

/-- A step that changes the text only, whatever the tally is. -/
def TextOnly (F : Text × Tally → Text × Tally) : Prop :=
  ∃ A : Text → Text, ∀ x t, F (x, t) = (A x, t)

theorem TextOnly.foldl {α : Type} {F : Text × Tally → α → Text × Tally} {as : List α}
    (h : ∀ a ∈ as, TextOnly fun x => F x a) : TextOnly fun x => as.foldl F x := by
  induction as with
  | nil => exact ⟨fun x => x, fun x t => rfl⟩
  | cons a as ih =>
    obtain ⟨A, hA⟩ := h a List.mem_cons_self
    obtain ⟨B, hB⟩ := ih fun b hb => h b (List.mem_cons_of_mem _ hb)
    refine ⟨fun x => B (A x), fun x t => ?_⟩
    have hx : F (x, t) a = (A x, t) := hA x t
    show as.foldl F (F (x, t) a) = _
    rw [hx]
    exact hB (A x) t

theorem TextOnly.rule (o : Options) {r : Rule} (h : ∃ f, r.action = .replace f) :
    TextOnly (r.apply o) := by
  obtain ⟨name, p, a⟩ := r
  obtain ⟨f, hf⟩ := h
  cases hf
  exact ⟨p.substitute f, fun x t => rfl⟩

/-- Hover cards are counted behind the boxes only. -/
theorem replace_of_mem_rules {s : Stage} {r : Rule}
    (hs : s ∈ [Stage.lineBreaks, .formatting, .color, .specials]) (hr : r ∈ s.rules) :
    ∃ f, r.action = .replace f := by
  simp only [List.mem_cons, List.not_mem_nil, or_false] at hs
  rcases hs with rfl | rfl | rfl | rfl
  all_goals simp only [Stage.rules, List.mem_cons, List.not_mem_nil, or_false] at hr
  · rcases hr with rfl | rfl | rfl <;> exact ⟨_, rfl⟩
  · rcases hr with rfl | rfl | rfl | rfl | rfl <;> exact ⟨_, rfl⟩
  · exact ⟨_, congrArg Rule.action hr⟩
  · exact ⟨_, congrArg Rule.action hr⟩

theorem textOnly_early (o : Options) : TextOnly fun x => early.foldl (fun x s => s.apply o x) x := by
  refine TextOnly.foldl fun s hs => ?_
  have hstage : ∀ {s : Stage}, s ∈ [Stage.lineBreaks, .formatting, .color, .specials] →
      TextOnly fun x => (rules s).apply o x := fun hs =>
    TextOnly.foldl fun r hr => TextOnly.rule o (replace_of_mem_rules hs hr)
  simp only [early, List.mem_cons, List.not_mem_nil, or_false] at hs
  rcases hs with rfl | rfl | rfl | rfl | rfl
  · exact hstage (by simp)
  · exact hstage (by simp)
  · exact hstage (by simp)
  · show TextOnly fun x => ((Rule.size? o.allowedSizes).map fun r => r.apply o x).getD x
    unfold Rule.size?
    split
    · exact ⟨fun x => x, fun x t => rfl⟩
    · exact ⟨_, fun x t => rfl⟩
  · exact hstage (by simp)

theorem uniform_late {V σ : Type} {φ : V → σ → Text} (hφ : ∀ v a, Sealed (φ v a)) (v₀ : V)
    (o : Options) : Uniform φ fun x => late.foldl (fun x s => s.apply o x) x := by
  refine Uniform.foldl fun s hs => ?_
  simp only [late, List.mem_cons, List.not_mem_nil, or_false] at hs
  rcases hs with rfl | rfl | rfl | rfl | rfl | rfl | rfl | rfl
  · exact uniform_stage hφ v₀ o (s := .quotes) (by simp)
  · exact uniform_stage hφ v₀ o (s := .inlineCode) (by simp)
  · exact uniform_stage hφ v₀ o (s := .layout) (by simp)
  · exact uniform_stage hφ v₀ o (s := .linksAndMedia) (by simp)
  · exact Item.uniform_lists hφ v₀ o
  · exact uniform_stage hφ v₀ o (s := .trailing) (by simp)
  · exact uniform_stage hφ v₀ o (s := .collapseBreaks) (by simp)
  · exact Autolink.uniform_links hφ v₀

end Step

namespace Page

/-- The steps of a render, from all start maps at once. -/
theorem run_templated (o : Options) (text : Text) {ids : Text → Prop}
    (hids : ∀ m, ∀ id ∈ (run o text m).2.seen, ids id) :
    Templated (slotText o ids) (fun m => (run o text m).1) ∧
      ∀ m n, (run o text m).2.seen = (run o text n).2.seen := by
  have hφ := sealed_slotText o ids
  obtain ⟨A, hA⟩ := Step.textOnly_early o
  have hrun : ∀ m, run o text m = Step.late.foldl (fun x s => s.apply o x)
      (resolve o .spoiler (resolve o .named (A text, { widgets := m }))) := by
    intro m
    rw [run, Step.pipeline_eq, List.foldl_append, List.foldl_append]
    exact congrArg (fun x => Step.late.foldl (fun x s => s.apply o x)
      (resolve o .spoiler (resolve o .named x))) (hA text { widgets := m })
  -- what one step has seen the following steps have seen too
  have hlate : ∀ (x : Text) (t : Tally), t.seen ⊆ (Step.late.foldl (fun x s => s.apply o x) (x, t)).2.seen :=
    (Steady.foldl fun s _ => Steady.step s).seen
  have hspoiler : ∀ m, ∀ id ∈
      (resolve o .spoiler (resolve o .named (A text, { widgets := m }))).2.seen, ids id :=
    fun m id hid => hids m id (by rw [hrun m]; exact hlate _ _ hid)
  have hnamed : ∀ m, ∀ id ∈ (resolve o .named (A text, { widgets := m })).2.seen, ids id :=
    fun m id hid => hspoiler m id ((Steady.boxes .spoiler).seen _ _ hid)
  -- the boxes, first the named ones in a text without slots
  have hstart : TallyTemplated o fun m => { widgets := m } :=
    ⟨fun m n => rfl, fun m => Tally.shows_start o m⟩
  have hscan : ∀ m : WidgetMap, Tag.scan (A text) =
      listAt ((Tag.scan (A text)).map fun t (_ : WidgetMap) => t) m := by
    intro m
    rw [listAt, List.map_map]
    exact (List.map_id _).symm
  obtain ⟨hx, ht⟩ := resolve_templated hscan (fun T hT => by
    obtain ⟨t, -, rfl⟩ := List.mem_map.1 hT
    exact steered_const .named t) hstart hnamed
  obtain ⟨Ts, hTs, hscan'⟩ := scan_templated hφ WidgetMap.empty hx
  obtain ⟨hy, hu⟩ := resolve_templated hscan' (fun T hT => steered_spoiler (hTs T hT)) ht hspoiler
  -- the steps behind them
  have hcards : ∀ m, (resolve o .spoiler (resolve o .named (A text, { widgets := m }))).2.cards =
      (resolve o .spoiler (resolve o .named (A text, { widgets := .empty }))).2.cards :=
    fun m => Tally.core_cards (hu.core m .empty)
  obtain ⟨z, k, hz, hlast⟩ := Step.uniform_late hφ WidgetMap.empty o _ _ hy
  have hend : ∀ m, run o text m = _ := fun m => (hrun m).trans (hlast m _ (hcards m))
  refine ⟨hz.of_eq fun m => by rw [hend m], fun m n => ?_⟩
  rw [hend m, hend n]
  have hseen := Tally.core_seen (hu.core m n)
  exact hseen

end Page

namespace Guarded

theorem restore_templated {V σ : Type} {φ : V → σ → Text} (hφ : ∀ v a, Sealed (φ v a)) (v₀ : V)
    (blocks : List Text) {x : V → Text} (hx : Templated φ x) :
    Templated φ fun v => restore blocks (x v) := by
  have hone : ∀ (b : Text × Nat) {x : V → Text}, Templated φ x →
      Templated φ fun v => restoreOne (x v) b := by
    intro b x hx
    have hmem : '<' ∉ placeholder b.2 := by
      rw [placeholder_eq]
      intro h
      rcases List.mem_cons.1 h with h | h
      · exact absurd h (by decide)
      · rcases List.mem_append.1 h with h | h
        · exact ne_lt_of_mem_label h rfl
        · exact absurd h (by decide)
    have hskip : ∀ v a, Skips (readWord? id (placeholder b.2)) (φ v a) := fun v a =>
      (hφ v a).skips (.inl rfl) (passes_of_bar (by decide) (by decide) (by decide) _)
    exact substitute_templated (p := Pattern.word id _ (placeholder_ne_nil b.2)) hφ v₀ hskip
      (Blind.word fun v a => (hφ v a).stops_of_not_mem rfl hmem) (fun _ _ => .of_const _) hx
  have hall : ∀ (bs : List (Text × Nat)) {x : V → Text}, Templated φ x →
      Templated φ fun v => bs.foldl restoreOne (x v) := by
    intro bs
    induction bs with
    | nil => exact fun hx => hx
    | cons b bs ih => exact fun hx => ih (hone b hx)
  cases hb : blocks.isEmpty with
  | true => exact hx.of_eq fun v => by rw [restore_eq, hb, if_pos rfl]
  | false =>
    have hdrop : Templated φ fun v => dropBreaks (blocks.zipIdx.foldl restoreOne (x v)) :=
      substitute_templated (p := Rule.tagBreak "</pre>".toList) hφ v₀
        (skips_tagBreak hφ (by decide)) (readTagBreak?_blind hφ (by decide))
        (fun _ _ => .of_const _) (hall _ hx)
    exact hdrop.of_eq fun v => by rw [restore_eq, hb]; rfl

end Guarded

/-! ## Holes -/

namespace Widget

/-- The spots of a widget that show its flag. -/
inductive Spot where
  | openClass
  | expanded
  | display
  deriving DecidableEq, Repr

structure Hole where
  id : Text
  spot : Spot
  deriving DecidableEq, Repr

/-- What stands in a hole, for the flags `g`. -/
def Hole.text (g : Text → Bool) (h : Hole) : Text :=
  match h.spot with
  | .openClass => Html.openClass (g h.id)
  | .expanded => Html.flagText (g h.id)
  | .display => Html.displayValue (g h.id)

/-- The text around the holes of an opening tag. -/
def Slot.holes {ids : Text → Prop} (s : Slot ids) : Template Hole :=
  match s.mark with
  | .head =>
    Template.const "<div class=\"js-spoilerbox bbcode-spoilerbox".toList ++
      .slot ⟨s.id, .openClass⟩ ::
        (Template.const ("\" id=\"".toList ++ s.id ++ "\" data-widget-id=\"".toList ++ s.id
          ++ "\" data-expanded=\"".toList) ++
            .slot ⟨s.id, .expanded⟩ :: Template.const "\">".toList)
  | .body =>
    Template.const
        "<div class=\"js-spoilerbox__body bbcode-spoilerbox__body\" style=\"display: ".toList ++
      .slot ⟨s.id, .display⟩ :: Template.const ";\">".toList

theorem Slot.fill_holes {ids : Text → Prop} (g : Text → Bool) (s : Slot ids) :
    Template.fill (Hole.text g) s.holes = s.text g := by
  unfold Slot.holes Slot.text
  cases s.mark with
  | head =>
    unfold headTag
    simp only [Template.fill_append, Template.fill_const, Template.fill_slot, Hole.text]
    generalize "<div class=\"js-spoilerbox bbcode-spoilerbox".toList = a
    generalize "\" data-widget-id=\"".toList = b
    generalize "\" data-expanded=\"".toList = c
    simp only [List.append_assoc]
  | body =>
    unfold bodyTag
    simp only [Template.fill_append, Template.fill_const, Template.fill_slot, Hole.text]
    generalize "<div class=\"js-spoilerbox__body bbcode-spoilerbox__body\" style=\"display: ".toList = a
    simp only [List.append_assoc]

theorem Slot.id_of_mem_holes {ids : Text → Prop} {s : Slot ids} {h : Hole}
    (hmem : .slot h ∈ s.holes) : h.id = s.id := by
  have hconst : ∀ x : Text, Glyph.slot h ∉ (Template.const x : Template Hole) := by
    intro x hx
    obtain ⟨c, -, hc⟩ := List.mem_map.1 hx
    cases hc
  unfold Slot.holes at hmem
  cases hm : s.mark with
  | head =>
    simp only [hm, List.mem_append, List.mem_cons, Glyph.slot.injEq, hconst, false_or,
      or_false] at hmem
    rcases hmem with rfl | rfl <;> rfl
  | body =>
    simp only [hm, List.mem_append, List.mem_cons, Glyph.slot.injEq, hconst, false_or,
      or_false] at hmem
    rw [hmem]

/-- The same template, down to the spots. -/
def holes {ids : Text → Prop} (t : Template (Slot ids)) : Template Hole :=
  t.flatMap fun
    | .char c => [.char c]
    | .slot s => s.holes

theorem fill_holes {ids : Text → Prop} (g : Text → Bool) (t : Template (Slot ids)) :
    Template.fill (Hole.text g) (holes t) = Template.fill (Slot.text g) t := by
  induction t with
  | nil => rfl
  | cons a t ih =>
    rw [holes, List.flatMap_cons, Template.fill_append]
    cases a with
    | char c => exact congrArg (c :: ·) ih
    | slot s =>
      rw [Template.fill_slot, ← ih]
      exact congrArg (· ++ _) (Slot.fill_holes g s)

theorem id_of_mem_holes {ids : Text → Prop} {t : Template (Slot ids)} {h : Hole}
    (hmem : .slot h ∈ holes t) : ids h.id := by
  obtain ⟨a, -, ha⟩ := List.mem_flatMap.1 hmem
  cases a with
  | char c => simp at ha
  | slot s =>
    rw [Slot.id_of_mem_holes ha]
    exact s.mem

end Widget

namespace Page

/-- From every start map, a render shows the same widgets, and the page is the same template with
each hole filled from the flag of its widget. -/
theorem exists_template (o : Options) (source : Text) : ∃ page : Template Hole,
    (∀ m : WidgetMap, (render o source m).html =
      Template.fill (Hole.text (m.flag o.expandByDefault)) page) ∧
    (∀ (m : WidgetMap) (h : Hole), .slot h ∈ page → h.id ∈ shownIds o source m) ∧
    ∀ m n : WidgetMap, shownIds o source m = shownIds o source n := by
  have hids : ∀ m, ∀ id ∈ shownIds o source m, ∃ n, id ∈ shownIds o source n :=
    fun m id hid => ⟨m, hid⟩
  obtain ⟨hx, hseen⟩ := run_templated o (Guarded.protect source o.codeBlocks).text hids
  obtain ⟨t, ht⟩ := Guarded.restore_templated (sealed_slotText o _) WidgetMap.empty
    (Guarded.protect source o.codeBlocks).blocks hx
  refine ⟨holes t, fun m => ?_, fun m h hmem => ?_, hseen⟩
  · rw [html_render, fill_holes]
    exact ht m
  · obtain ⟨n, hn⟩ := id_of_mem_holes hmem
    have hmn : shownIds o source m = shownIds o source n := hseen m n
    rw [hmn]
    exact hn

/-- For every document there is one template whose holes are the three spots of its widgets. From
every start map the page is that template with each hole filled from the flag of its widget, and
flipping the flag of a widget changes what stands in the holes of that widget only. -/
theorem html_eq_fill (o : Options) (source : Text) : ∃ page : Template Hole,
    (∀ m : WidgetMap, (render o source m).html =
      Template.fill (Hole.text (m.flag o.expandByDefault)) page) ∧
    (∀ m n : WidgetMap, shownIds o source m = shownIds o source n) ∧
    (∀ (m : WidgetMap) (h : Hole), .slot h ∈ page → h.id ∈ shownIds o source m) ∧
    ∀ (m : WidgetMap) (id : Text), (render o source (m.toggle id).2).html =
      Template.fill (fun h => if h.id = id then h.text fun _ => (m.toggle id).1
        else h.text (m.flag o.expandByDefault)) page := by
  obtain ⟨page, hfill, hids, hseen⟩ := exists_template o source
  refine ⟨page, hfill, hseen, hids, fun m id => ?_⟩
  rw [hfill]
  refine congrArg (fun f => Template.fill f page) (funext fun h => ?_)
  have hflag := m.flag_toggle id h.id o.expandByDefault
  by_cases hid : h.id = id
  · rw [if_pos hid, Hole.text, Hole.text, hflag, if_pos hid]
  · rw [if_neg hid, Hole.text, Hole.text, hflag, if_neg hid]

end Page

end BBCode
