import BBCode.Proofs.Flags
import BBCode.Proofs.Template.Tags

/-!
# BBCode.Proofs.Template.Widgets

Boxes on templated families. The members are the start maps of a render; the slots are the two
opening tags of a widget that show its flag. Resolving boxes adds such slots and reads none.

* `widget_eq`: a widget is made of two such tags and a text that shows no flag.
* `step_templated`, `foldl_templated`: one tag, and a run of tags, on all start maps at once.
* `resolve_templated`: resolving the boxes of a kind.
-/

namespace BBCode

namespace Widget

/-- The opening tags of a widget that show its flag. -/
inductive Mark where
  | head
  | body
  deriving DecidableEq, Repr

def headTag (id : Text) (flag : Bool) : Text :=
  "<div class=\"js-spoilerbox bbcode-spoilerbox".toList ++ Html.openClass flag
    ++ "\" id=\"".toList ++ id ++ "\" data-widget-id=\"".toList ++ id
    ++ "\" data-expanded=\"".toList ++ Html.flagText flag ++ "\">".toList

def bodyTag (flag : Bool) : Text :=
  "<div class=\"js-spoilerbox__body bbcode-spoilerbox__body\" style=\"display: ".toList
    ++ Html.displayValue flag ++ ";\">".toList

/-- What stands between the two tags. -/
def toggleLink (title id : Text) : Text :=
  "<a class=\"js-spoilerbox__link bbcode-spoilerbox__link\" href=\"#\" data-widget-toggle=\"".toList
    ++ id ++ "\"><span class=\"bbcode-spoilerbox__link-icon\"></span>".toList ++ title
    ++ "</a>".toList

theorem widget_eq (title body id : Text) (flag : Bool) :
    Html.widget title body id flag =
      headTag id flag ++ (toggleLink title id ++ (bodyTag flag ++ (body ++ "</div></div>".toList))) := by
  have hopen : "\"><a class=\"js-spoilerbox__link bbcode-spoilerbox__link\" href=\"#\" data-widget-toggle=\"".toList =
      "\">".toList ++ "<a class=\"js-spoilerbox__link bbcode-spoilerbox__link\" href=\"#\" data-widget-toggle=\"".toList := by
    decide
  have hbody : "</a><div class=\"js-spoilerbox__body bbcode-spoilerbox__body\" style=\"display: ".toList =
      "</a>".toList ++ "<div class=\"js-spoilerbox__body bbcode-spoilerbox__body\" style=\"display: ".toList := by
    decide
  unfold Html.widget Html.widgetShell headTag toggleLink bodyTag
  rw [hopen, hbody]
  generalize "<div class=\"js-spoilerbox bbcode-spoilerbox".toList = a
  generalize "<a class=\"js-spoilerbox__link bbcode-spoilerbox__link\" href=\"#\" data-widget-toggle=\"".toList = b
  generalize "<div class=\"js-spoilerbox__body bbcode-spoilerbox__body\" style=\"display: ".toList = c
  generalize "\"><span class=\"bbcode-spoilerbox__link-icon\"></span>".toList = d
  generalize "\" data-widget-id=\"".toList = e
  generalize "\" data-expanded=\"".toList = f
  simp only [List.append_assoc]

/-- A place on a page that shows the flag of one of some widgets. -/
structure Slot (ids : Text → Prop) where
  mark : Mark
  id : Text
  quiet : ∀ c ∈ id, isQuiet c = true
  mem : ids id

def Slot.text {ids : Text → Prop} (g : Text → Bool) (s : Slot ids) : Text :=
  match s.mark with
  | .head => headTag s.id (g s.id)
  | .body => bodyTag (g s.id)

theorem sealed_headTag {id : Text} (h : ∀ c ∈ id, isQuiet c = true) (flag : Bool) :
    Sealed (headTag id flag) := by
  have hstart : "<div class=\"js-spoilerbox bbcode-spoilerbox".toList =
      ['<', 'd'] ++ "iv class=\"js-spoilerbox bbcode-spoilerbox".toList := by decide
  have hend : "\">".toList = ['"', '>'] := rfl
  refine ⟨"iv class=\"js-spoilerbox bbcode-spoilerbox".toList ++ Html.openClass flag
    ++ "\" id=\"".toList ++ id ++ "\" data-widget-id=\"".toList ++ id
    ++ "\" data-expanded=\"".toList ++ Html.flagText flag, ?_, ?_⟩
  · unfold headTag
    rw [hstart, hend]
    generalize "iv class=\"js-spoilerbox bbcode-spoilerbox".toList = a
    generalize "\" data-widget-id=\"".toList = b
    generalize "\" data-expanded=\"".toList = c
    simp only [List.append_assoc]
  · have hclass : ∀ c ∈ "iv class=\"js-spoilerbox bbcode-spoilerbox".toList, isQuiet c = true := by
      decide
    have hopen : ∀ c ∈ Html.openClass flag, isQuiet c = true := by
      cases flag <;> decide
    have hid : ∀ c ∈ "\" id=\"".toList, isQuiet c = true := by decide
    have hdata : ∀ c ∈ "\" data-widget-id=\"".toList, isQuiet c = true := by decide
    have hexp : ∀ c ∈ "\" data-expanded=\"".toList, isQuiet c = true := by decide
    have hflag : ∀ c ∈ Html.flagText flag, isQuiet c = true := by
      cases flag <;> decide
    intro c hc
    simp only [List.mem_append] at hc
    rcases hc with ((((((hc | hc) | hc) | hc) | hc) | hc) | hc) | hc
    · exact hclass c hc
    · exact hopen c hc
    · exact hid c hc
    · exact h c hc
    · exact hdata c hc
    · exact h c hc
    · exact hexp c hc
    · exact hflag c hc

theorem sealed_bodyTag (flag : Bool) : Sealed (bodyTag flag) := by
  have hstart : "<div class=\"js-spoilerbox__body bbcode-spoilerbox__body\" style=\"display: ".toList =
      ['<', 'd'] ++ "iv class=\"js-spoilerbox__body bbcode-spoilerbox__body\" style=\"display: ".toList := by
    decide
  have hend : ";\">".toList = [';'] ++ ['"', '>'] := rfl
  refine ⟨"iv class=\"js-spoilerbox__body bbcode-spoilerbox__body\" style=\"display: ".toList
    ++ Html.displayValue flag ++ [';'], ?_, ?_⟩
  · unfold bodyTag
    rw [hstart, hend]
    generalize "iv class=\"js-spoilerbox__body bbcode-spoilerbox__body\" style=\"display: ".toList = a
    simp only [List.append_assoc]
  · cases flag <;> decide

theorem Slot.sealed {ids : Text → Prop} (g : Text → Bool) (s : Slot ids) : Sealed (s.text g) := by
  unfold Slot.text
  split
  · exact sealed_headTag s.quiet _
  · exact sealed_bodyTag _

/-- An id is made of characters that no reading looks for. -/
theorem isQuiet_of_mem_make {kind title : Text} {n : Nat} {c : Char}
    (h : c ∈ WidgetId.make kind title n) : isQuiet c = true := by
  have hall : ∀ d ∈ "box-0123456789abcdef".toList, isQuiet d = true := by decide
  exact hall c (WidgetId.mem_make h)

end Widget

namespace Box

open Widget

/-- What the slots show in a render from a start map. -/
def slotText (o : Options) (ids : Text → Prop) (m : WidgetMap) (s : Slot ids) : Text :=
  s.text (m.flag o.expandByDefault)

theorem sealed_slotText (o : Options) (ids : Text → Prop) (m : WidgetMap) (s : Slot ids) :
    Sealed (slotText o ids m s) :=
  s.sealed _

variable {o : Options} {ids : Text → Prop} {k : BoxKind}

theorem widget_templated {id title : Text} (hid : ∀ c ∈ id, isQuiet c = true) (hmem : ids id)
    {body : WidgetMap → Text} (hbody : Templated (slotText o ids) body) :
    Templated (slotText o ids) fun m =>
      Html.widget title (body m) id (m.flag o.expandByDefault id) := by
  have hhead : Templated (slotText o ids) fun m => headTag id (m.flag o.expandByDefault id) :=
    .of_slot (φ := slotText o ids) ⟨.head, id, hid, hmem⟩
  have htag : Templated (slotText o ids) fun m => bodyTag (m.flag o.expandByDefault id) :=
    .of_slot (φ := slotText o ids) ⟨.body, id, hid, hmem⟩
  have hrest := htag.append (hbody.append (.of_const "</div></div>".toList))
  refine (hhead.append ((Templated.of_const (toggleLink title id)).append hrest)).of_eq fun m => ?_
  rw [widget_eq]

/-! ## Open boxes -/

/-- A box that is open in the renders from all start maps. -/
structure OpenBox where
  title : Text
  id : Text
  body : WidgetMap → Text

def OpenBox.frame (o : Options) (m : WidgetMap) (b : OpenBox) : Frame where
  title := b.title
  id := b.id
  expanded := m.flag o.expandByDefault b.id
  body := b.body m

/-- The nests of the renders from all start maps: the same boxes are open in all, with the flags
of the maps, around templated texts. -/
structure NestTemplated (o : Options) (ids : Text → Prop) (n : WidgetMap → Nest) : Prop where
  frames : ∃ bs : List OpenBox, (∀ b ∈ bs, (∀ c ∈ b.id, isQuiet c = true) ∧ ids b.id ∧
    Templated (slotText o ids) b.body) ∧ ∀ m, (n m).frames = bs.map (OpenBox.frame o m)
  out : Templated (slotText o ids) fun m => (n m).out

theorem Nest.write_of_nil {n : Nest} (h : n.frames = []) (s : Text) :
    n.write s = { n with out := n.out ++ s } := by
  rw [Nest.write, h]

theorem Nest.write_of_cons {n : Nest} {f : Frame} {fs : List Frame} (h : n.frames = f :: fs)
    (s : Text) : n.write s = { n with frames := { f with body := f.body ++ s } :: fs } := by
  rw [Nest.write, h]

theorem Nest.close_of_cons {n : Nest} {f : Frame} {fs : List Frame} (h : n.frames = f :: fs)
    (s : Text) : n.close s =
      Nest.write { n with frames := fs } (Html.widget f.title f.body.trimBreaks f.id f.expanded) := by
  rw [Nest.close, h]

namespace NestTemplated

variable {n : WidgetMap → Nest} {s : WidgetMap → Text}

theorem write (hn : NestTemplated o ids n) (hs : Templated (slotText o ids) s) :
    NestTemplated o ids fun m => (n m).write (s m) := by
  obtain ⟨⟨bs, hbs, hframes⟩, hout⟩ := hn
  cases bs with
  | nil =>
    have hw : ∀ m, (n m).write (s m) = { n m with out := (n m).out ++ s m } :=
      fun m => Nest.write_of_nil (hframes m) _
    simp only [hw]
    exact ⟨⟨[], hbs, hframes⟩, hout.append hs⟩
  | cons b bs =>
    obtain ⟨hid, hmem, hbody⟩ := hbs b (by simp)
    let inner : OpenBox := ⟨b.title, b.id, fun m => b.body m ++ s m⟩
    have hw : ∀ m, (n m).write (s m) = ⟨(inner :: bs).map (OpenBox.frame o m), (n m).out⟩ :=
      fun m => Nest.write_of_cons (hframes m) _
    simp only [hw]
    refine ⟨⟨inner :: bs, ?_, fun m => rfl⟩, hout⟩
    intro c hc
    rcases List.mem_cons.1 hc with rfl | hc
    · exact ⟨hid, hmem, hbody.append hs⟩
    · exact hbs c (List.mem_cons_of_mem _ hc)

theorem push (hn : NestTemplated o ids n) {title id : Text} (hid : ∀ c ∈ id, isQuiet c = true)
    (hmem : ids id) :
    NestTemplated o ids fun m => (n m).push
      { title, id, expanded := m.flag o.expandByDefault id } := by
  obtain ⟨⟨bs, hbs, hframes⟩, hout⟩ := hn
  refine ⟨⟨⟨title, id, fun _ => []⟩ :: bs, ?_, fun m => ?_⟩, hout⟩
  · intro b hb
    rcases List.mem_cons.1 hb with rfl | hb
    · exact ⟨hid, hmem, .of_const []⟩
    · exact hbs b hb
  · show _ :: (n m).frames = _
    rw [hframes m]
    rfl

theorem close (hn : NestTemplated o ids n) (hs : Templated (slotText o ids) s) :
    NestTemplated o ids fun m => (n m).close (s m) := by
  obtain ⟨⟨bs, hbs, hframes⟩, hout⟩ := hn
  cases bs with
  | nil =>
    have hc : ∀ m, (n m).close (s m) = (n m).write (s m) := by
      intro m
      rw [Nest.close, hframes m]
      rfl
    simp only [hc]
    exact write ⟨⟨[], hbs, hframes⟩, hout⟩ hs
  | cons b bs =>
    obtain ⟨hid, hmem, hbody⟩ := hbs b (by simp)
    have hc : ∀ m, (n m).close (s m) =
        Nest.write { n m with frames := bs.map (OpenBox.frame o m) }
          (Html.widget b.title (b.body m).trimBreaks b.id (m.flag o.expandByDefault b.id)) :=
      fun m => Nest.close_of_cons (hframes m) _
    simp only [hc]
    have htrim := trimBreaks_templated (sealed_slotText o ids) WidgetMap.empty hbody
    have hrest : NestTemplated o ids fun m =>
        { n m with frames := bs.map (OpenBox.frame o m) } :=
      ⟨⟨bs, fun c hc => hbs c (List.mem_cons_of_mem _ hc), fun m => rfl⟩, hout⟩
    exact write hrest (widget_templated hid hmem htrim)

end NestTemplated

/-! ## Runs -/

/-- A family of tags that all do the same to the open boxes. -/
structure Steered (k : BoxKind) (φ : WidgetMap → Slot ids → Text) (T : WidgetMap → Tag) : Prop where
  title : ∃ title, ∀ m, k.title? (T m) = title
  closes : ∃ b, ∀ m, (T m).closes k.tag = b
  source : Templated φ fun m => (T m).source

/-- The tallies of the renders from all start maps: the same counts, and the flags of the maps. -/
structure TallyTemplated (o : Options) (t : WidgetMap → Tally) : Prop where
  core : ∀ m n, (t m).core = (t n).core
  shows : ∀ m, (t m).Shows o (m.flag o.expandByDefault)

theorem step_templated {n : WidgetMap → Nest} {t : WidgetMap → Tally} {T : WidgetMap → Tag}
    (hT : Steered k (slotText o ids) T) (hn : NestTemplated o ids n) (ht : TallyTemplated o t)
    (hids : ∀ m, ∀ id ∈ (step o k (n m, t m) (T m)).2.seen, ids id) :
    NestTemplated o ids (fun m => (step o k (n m, t m) (T m)).1) ∧
      TallyTemplated o fun m => (step o k (n m, t m) (T m)).2 := by
  obtain ⟨⟨title?, htitle⟩, ⟨closes, hcloses⟩, hsource⟩ := hT
  cases title? with
  | some title =>
    -- an opening tag: the id is made from what all the tallies have in common
    have hstep : ∀ m, step o k (n m, t m) (T m) =
        ((n m).push (openFrame o k title (t m)).1, (openFrame o k title (t m)).2) := by
      intro m
      simp only [step, htitle m]
    have hid : ∀ m, nextId k title (t m) = nextId k title (t .empty) :=
      fun m => nextId_congr (ht.core m .empty) title
    have hmem : ids (nextId k title (t .empty)) := by
      refine hids .empty _ ?_
      rw [hstep, openFrame_seen]
      exact List.mem_cons_self
    simp only [hstep]
    refine ⟨?_, fun m m' => openFrame_core (ht.core m m') title,
      fun m => (openFrame_shows (ht.shows m) title).2⟩
    have hframe : ∀ m, (openFrame o k title (t m)).1 =
        { title, id := nextId k title (t .empty),
          expanded := m.flag o.expandByDefault (nextId k title (t .empty)) } := by
      intro m
      rw [(openFrame_shows (ht.shows m) title).1, hid m]
    simp only [hframe]
    exact hn.push (fun c hc => isQuiet_of_mem_make hc) hmem
  | none =>
    cases closes with
    | true =>
      have hstep : ∀ m, step o k (n m, t m) (T m) = ((n m).close (T m).source, t m) := by
        intro m
        simp only [step, htitle m, hcloses m, if_true]
      simp only [hstep]
      exact ⟨hn.close hsource, ht⟩
    | false =>
      have hstep : ∀ m, step o k (n m, t m) (T m) = ((n m).write (T m).source, t m) := by
        intro m
        simp only [step, htitle m, hcloses m, Bool.false_eq_true, if_false]
      simp only [hstep]
      exact ⟨hn.write hsource, ht⟩

theorem foldl_templated {Ts : List (WidgetMap → Tag)} {n : WidgetMap → Nest}
    {t : WidgetMap → Tally} (hT : ∀ T ∈ Ts, Steered k (slotText o ids) T)
    (hn : NestTemplated o ids n) (ht : TallyTemplated o t)
    (hids : ∀ m, ∀ id ∈ ((listAt Ts m).foldl (step o k) (n m, t m)).2.seen, ids id) :
    NestTemplated o ids (fun m => ((listAt Ts m).foldl (step o k) (n m, t m)).1) ∧
      TallyTemplated o fun m => ((listAt Ts m).foldl (step o k) (n m, t m)).2 := by
  induction Ts generalizing n t with
  | nil => exact ⟨hn, ht⟩
  | cons T Ts ih =>
    have hone := step_templated (hT T (by simp)) hn ht fun m id hid =>
      hids m id (seen_foldl (listAt Ts m) _ hid)
    exact ih (fun U hU => hT U (List.mem_cons_of_mem _ hU)) hone.1 hone.2 hids

theorem openAfter_listAt {Ts : List (WidgetMap → Tag)}
    (hT : ∀ T ∈ Ts, Steered k (slotText o ids) T) (i : Nat) (stack : List Nat) (m n : WidgetMap) :
    openAfter k i stack (listAt Ts m) = openAfter k i stack (listAt Ts n) := by
  induction Ts generalizing i stack with
  | nil => rfl
  | cons T Ts ih =>
    have ih := ih fun U hU => hT U (List.mem_cons_of_mem _ hU)
    obtain ⟨⟨title, htitle⟩, ⟨closes, hcloses⟩, -⟩ := hT T (by simp)
    show openAfter k i stack (T m :: listAt Ts m) = openAfter k i stack (T n :: listAt Ts n)
    rw [openAfter, openAfter, htitle m, htitle n, hcloses m, hcloses n, ih, ih, ih]

/-- The boxes of the renders from all start maps close, or stop, at the same tags. -/
theorem split_listAt {Ts : List (WidgetMap → Tag)}
    (hT : ∀ T ∈ Ts, Steered k (slotText o ids) T) :
    ∃ As Bs, As ++ Bs = Ts ∧ ∀ m, split k (listAt Ts m) = (listAt As m, listAt Bs m) := by
  have hun : ∀ m, unclosed? k (listAt Ts m) = unclosed? k (listAt Ts .empty) :=
    fun m => congrArg List.getLast? (openAfter_listAt hT 0 [] m .empty)
  cases h : unclosed? k (listAt Ts .empty) with
  | none =>
    refine ⟨Ts, [], by simp, fun m => ?_⟩
    rw [split, hun m, h]
    rfl
  | some i =>
    refine ⟨Ts.take i, Ts.drop i, by simp, fun m => ?_⟩
    rw [split, hun m, h]
    simp [listAt]

theorem resolve_templated {x : WidgetMap → Text} {t : WidgetMap → Tally}
    {Ts : List (WidgetMap → Tag)} (hx : ∀ m, Tag.scan (x m) = listAt Ts m)
    (hT : ∀ T ∈ Ts, Steered k (slotText o ids) T) (ht : TallyTemplated o t)
    (hids : ∀ m, ∀ id ∈ (resolve o k (x m, t m)).2.seen, ids id) :
    Templated (slotText o ids) (fun m => (resolve o k (x m, t m)).1) ∧
      TallyTemplated o fun m => (resolve o k (x m, t m)).2 := by
  obtain ⟨As, Bs, rfl, hsplit⟩ := split_listAt hT
  have hres : ∀ m, resolve o k (x m, t m) =
      (((listAt As m).foldl (step o k) ({}, t m)).1.out ++ (listAt Bs m).flatMap Tag.source,
        ((listAt As m).foldl (step o k) ({}, t m)).2) := by
    intro m
    simp only [resolve, hx m, hsplit m]
  simp only [hres] at hids ⊢
  have hstart : NestTemplated o ids fun _ => {} := ⟨⟨[], by simp, fun m => rfl⟩, .of_const []⟩
  obtain ⟨hn, ht'⟩ := foldl_templated (fun T hmem => hT T (List.mem_append_left _ hmem)) hstart ht hids
  refine ⟨hn.out.append ?_, ht'⟩
  have hrest := Templated.flatMap (f := fun T m => (T m).source) Bs fun T hmem =>
    (hT T (List.mem_append_right _ hmem)).source
  refine hrest.of_eq fun m => ?_
  rw [listAt, List.flatMap_map]

/-- Spoiler boxes have no title in their tags, so slots in a tag do not matter. -/
theorem steered_spoiler {T : WidgetMap → Tag} (h : TagTemplated (slotText o ids) T) :
    Steered .spoiler (slotText o ids) T := by
  refine ⟨?_, ?_, h.source⟩
  · cases h with
    | opening n => exact ⟨_, fun m => rfl⟩
    | valued n hp => exact ⟨none, fun m => rfl⟩
    | closing n => exact ⟨none, fun m => rfl⟩
    | text hx => exact ⟨none, fun m => rfl⟩
  · cases h with
    | opening n => exact ⟨false, fun m => rfl⟩
    | valued n hp => exact ⟨false, fun m => rfl⟩
    | closing n => exact ⟨_, fun m => rfl⟩
    | text hx => exact ⟨false, fun m => rfl⟩

/-- Without slots in them all tags of a family are the same. -/
theorem steered_const (k : BoxKind) (t : Tag) : Steered k (slotText o ids) fun _ => t :=
  ⟨⟨_, fun _ => rfl⟩, ⟨_, fun _ => rfl⟩, .of_const _⟩

end Box

end BBCode
