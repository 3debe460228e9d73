import BBCode.Proofs.Doc.Stage
import BBCode.Proofs.Template.Links

/-!
# BBCode.Proofs.Doc.Links

Bare URLs on trees. When all elements are HTML, no URL is linked: text and values hold no scheme
and none comes about where they meet HTML, and the URLs in the attributes of an anchor are read
together with it.

* `Settled`: a text that is left alone, outside an anchor or inside one.
* `settled_write`: a tree in front of such a text makes another.
* `autolink_staged`: linking URLs changes nothing.
-/

namespace BBCode.Autolink

/-! ## Where no URL starts -/

/-- No URL starts in the text when `z` follows. -/
def NoUrl (x z : Text) : Prop := ∀ t, t <:+ x → readUrl? (t ++ z) = none

/-- The characters behind text and values, with which no scheme goes on. -/
def schemeEnds : List Char :=
  ['<', '"', ';', '%', ' ', Guarded.placeholderStart, Guarded.placeholderStop]

/-- The text cannot go on with a scheme that was started in front of it. -/
def Ends (z : Text) : Prop := z = [] ∨ ∃ c r, z = c :: r ∧ c ∈ schemeEnds

theorem readUrl?_of_skips {x : Text} (h1 : Skips (readWord? foldCase "https://".toList) x)
    (h2 : Skips (readWord? foldCase "http://".toList) x) : Skips readUrl? x :=
  h1.imp₂ (fun _ hs ht => readUrl?_of_not_scheme hs ht) h2

theorem noUrl_of_skips {x z : Text} (h : Skips readUrl? x) (hz : readUrl? z = none) : NoUrl x z := by
  induction x with
  | nil =>
    intro t ht
    rw [List.suffix_nil.1 ht]
    exact hz
  | cons c x ih =>
    intro t ht
    rcases List.suffix_cons_iff.1 ht with rfl | ht
    · exact h.1 z
    · exact ih h.2 t ht

/-- A scheme behind a text is not read across its end. -/
theorem readWord?_of_ends {w z : Text} (hw : ∀ c ∈ schemeEnds, clashesAll foldCase [c] w = true)
    (hz : Ends z) (t : Text) (h : readWord? foldCase w t = none) :
    readWord? foldCase w (t ++ z) = none := by
  rcases hz with rfl | ⟨c, r, rfl, hc⟩
  · rwa [List.append_nil]
  · have happ := readWord?_append_of_stops (stops_of_clashesAll (hw c hc)) t r
    rw [h] at happ
    exact happ

theorem readWord?_of_noScheme {p w t : Text} (hw : w = p ++ schemeMark)
    (h : ¬ schemeMark <:+: t) : readWord? foldCase w t = none := by
  rw [Option.eq_none_iff_forall_ne_some]
  rintro ⟨a, r⟩ ha
  obtain ⟨hmap, rfl⟩ := readWord?_eq_some.1 ha
  rw [hw] at hmap
  obtain ⟨b, c, rfl, -, hc⟩ := List.map_eq_append_iff.1 hmap
  -- only the mark itself folds to the mark
  have hmark : c = schemeMark := by
    have hfold : ∀ c q : Text, q.all (fun d => !d.isLower) = true → c.map foldCase = q → c = q := by
      intro c q hq hcq
      subst hcq
      refine (List.map_id c).symm.trans (List.map_congr_left fun d hd => ?_)
      have hlower := List.all_eq_true.1 hq (foldCase d) (List.mem_map_of_mem hd)
      exact foldCase_eq (by simpa using hlower) rfl
    exact hfold c schemeMark (by decide) hc
  exact h ⟨b, r, by rw [← hmark]⟩

theorem noUrl_of_noScheme {s z : Text} (h : ¬ schemeMark <:+: s) (hz : Ends z) : NoUrl s z := by
  intro t ht
  have hno : ¬ schemeMark <:+: t := fun hi => h (hi.trans ht.isInfix)
  refine readUrl?_of_not_scheme ?_ ?_
  · exact readWord?_of_ends (by decide) hz t (readWord?_of_noScheme (p := "https".toList) (by decide) hno)
  · exact readWord?_of_ends (by decide) hz t (readWord?_of_noScheme (p := "http".toList) (by decide) hno)

theorem noScheme_of_not_mem {s : Text} (h : ':' ∉ s) : ¬ schemeMark <:+: s :=
  fun hi => h (hi.subset (by decide))

/-! ## Settled texts -/

/-- A text that is left alone, and in which an anchor that is open in front of it ends, if one
is. -/
structure Settled (inside : Bool) (z : Text) : Prop where
  noUrl : readUrl? z = none
  calm : autolink z = z
  held : inside = true → ∃ b a r, nearest? foldCase "</a>".toList z = some (b, a, r) ∧ autolink r = r

namespace Settled

variable {inside : Bool} {x z : Text}

theorem nil : Settled false [] := ⟨by decide, by simp [autolink], by simp⟩

/-- A text in which no anchor starts or ends and no URL starts. -/
theorem append (hopen : Skips (readWord? foldCase "<a".toList) x)
    (hclose : inside = true → Skips (readWord? foldCase "</a>".toList) x) (hx : NoUrl x z)
    (hz : Settled inside z) : Settled inside (x ++ z) := by
  refine ⟨hx x List.suffix_rfl, ?_, fun hin => ?_⟩
  · have hcalm := hz.calm
    clear hclose
    induction x with
    | nil => exact hcalm
    | cons c x ih =>
      have hanchor : readAnchor? (c :: (x ++ z)) = none := by
        rw [readAnchor?, hopen.1 z]
      have hvalue : readValue? (c :: (x ++ z)) = none := by
        rw [readValue?, hx x (List.suffix_cons c x)]
        simp
      have hurl : readUrl? (c :: (x ++ z)) = none := hx (c :: x) List.suffix_rfl
      have hread : pattern.read? (c :: (x ++ z)) = none :=
        read?_eq_none.2 ⟨hanchor, hvalue, hurl⟩
      have hrest := ih hopen.2 fun t ht => hx t (ht.trans (List.suffix_cons c x))
      rw [List.cons_append, autolink, Pattern.substitute_of_not_read hread]
      exact congrArg (c :: ·) hrest
  · obtain ⟨b, a, r, hn, hr⟩ := hz.held hin
    exact ⟨x ++ b, a, r, by rw [nearest?_append_of_skips (hclose hin), hn]; rfl, hr⟩

/-- A fixed text. -/
theorem fixed (h : (avoids foldCase "<a".toList x && avoids foldCase "</a>".toList x &&
    (avoids foldCase "https://".toList x && avoids foldCase "http://".toList x)) = true)
    (hz : Settled inside z) : Settled inside (x ++ z) := by
  simp only [Bool.and_eq_true] at h
  obtain ⟨⟨h1, h2⟩, h3, h4⟩ := h
  have hurl := readUrl?_of_skips (skips_of_avoids h3) (skips_of_avoids h4)
  exact append (skips_of_avoids h1) (fun _ => skips_of_avoids h2) (noUrl_of_skips hurl hz.noUrl) hz

/-- A text or a value in front of something that no scheme goes on with. -/
theorem plain (hlt : ∀ c ∈ x, c ≠ '<') (hx : ¬ schemeMark <:+: x) (hends : Ends z)
    (hz : Settled inside z) : Settled inside (x ++ z) :=
  append (skips_of_head_ne fun c hc => foldCase_lt (hlt c hc))
    (fun _ => skips_of_head_ne fun c hc => foldCase_lt (hlt c hc)) (noUrl_of_noScheme hx hends) hz

/-- The end of an anchor. -/
theorem close (hz : Settled inside z) : Settled true ("</a>".toList ++ z) := by
  have hno : Settled false z := ⟨hz.noUrl, hz.calm, by simp⟩
  have hurl : Skips readUrl? "</a>".toList :=
    readUrl?_of_skips (skips_of_avoids (by decide)) (skips_of_avoids (by decide))
  have hout : Settled false ("</a>".toList ++ z) :=
    append (skips_of_avoids (by decide)) (by simp) (noUrl_of_skips hurl hz.noUrl) hno
  refine ⟨hout.noUrl, hout.calm, fun _ => ⟨[], "</a>".toList, z, ?_, hz.calm⟩⟩
  exact nearest?_of_read (readWord?_self_append (by decide) z)

/-- The start of an anchor: what follows up to its end is read with it. -/
theorem anchor {attributes : Text} (hblank : attributes.head?.any isBlank = true)
    (hgt : '>' ∉ attributes) (hlt : '<' ∉ attributes) (hz : Settled true z) :
    Settled inside ("<a".toList ++ (attributes ++ (['>'] ++ z))) := by
  obtain ⟨b, a, r, hn, hr⟩ := hz.held rfl
  have hz' : z = b ++ a ++ r := (nearest?_append hn).1
  have hopen : readWord? foldCase "<a".toList ("<a".toList ++ (attributes ++ (['>'] ++ z))) =
      some ("<a".toList, attributes ++ (['>'] ++ z)) := readWord?_self_append (by decide) _
  have hhead : (attributes ++ (['>'] ++ z)).head?.any isBlank = true := by
    cases attributes with
    | nil => cases hblank
    | cons c attributes => exact hblank
  have hend : nearest? id ['>'] (attributes ++ (['>'] ++ z)) = some (attributes, ['>'], z) :=
    nearest?_append_word (skips_of_head_ne fun c hc heq => hgt (heq ▸ hc)) rfl
  have hread : readAnchor? ("<a".toList ++ (attributes ++ (['>'] ++ z))) =
      some ("<a".toList ++ attributes ++ ['>'] ++ b ++ a, r) := by
    simp only [readAnchor?, hopen, hhead, hend, hn, Bool.not_true, Bool.false_eq_true, if_false,
      Option.map_some]
  refine ⟨?_, ?_, fun _ => ⟨"<a".toList ++ attributes ++ ['>'] ++ b, a, r, ?_, hr⟩⟩
  · exact readUrl?_cons_of_ne (by decide) _
  · have hspot : pattern.read? ("<a".toList ++ (attributes ++ (['>'] ++ z))) =
        some (.kept ("<a".toList ++ attributes ++ ['>'] ++ b ++ a), r) := read?_of_anchor hread
    have hr' : pattern.substitute write r = r := hr
    rw [autolink, Pattern.substitute_of_read hspot, hr', hz']
    simp only [write, List.append_assoc]
  · have hstart : Skips (readWord? foldCase "</a>".toList) "<a".toList :=
      skips_of_avoids (by decide)
    have hattributes : Skips (readWord? foldCase "</a>".toList) (attributes ++ ['>']) := by
      refine skips_of_head_ne fun c hc => foldCase_lt ?_
      rintro rfl
      rcases List.mem_append.1 hc with hc | hc
      · exact hlt hc
      · exact absurd hc (by decide)
    have happ : "<a".toList ++ (attributes ++ (['>'] ++ z)) =
        ("<a".toList ++ (attributes ++ ['>'])) ++ z := by simp
    rw [happ, nearest?_append_of_skips (hstart.append hattributes), hn]
    simp

end Settled

/-! ## Frames -/

section

variable {o : Options} {flag : Text → Bool} {inside : Bool} {z : Text}

theorem settled_value {s : Text} (h : PlainValue s) (hno : ¬ schemeMark <:+: s) (hends : Ends z)
    (hz : Settled inside z) : Settled inside (s ++ z) :=
  .plain (fun _ hc => (h.ne hc).1) hno hends hz

/-- A text without the ends of a tag can stand in one. -/
theorem settled_anchorTag (inside : Bool) {attributes : Text}
    (hblank : attributes.head?.any isBlank = true)
    (hne : ∀ c ∈ attributes, c ≠ '<' ∧ c ≠ '>') (hz : Settled true z) :
    Settled inside ("<a".toList ++ (attributes ++ (['>'] ++ z))) :=
  .anchor hblank (fun hc => (hne _ hc).2 rfl) (fun hc => (hne _ hc).1 rfl) hz

theorem settled_toggleLink {title id : Text} (hid : ∀ c ∈ id, isPlain c = true)
    (ht : PlainValue title) (hno : ¬ schemeMark <:+: title) (hz : Settled inside z) :
    Settled inside (Widget.toggleLink title id ++ z) := by
  have hbody : Settled true ("<span class=\"bbcode-spoilerbox__link-icon\"></span>".toList ++
      (title ++ ("</a>".toList ++ z))) :=
    .fixed (by decide) (settled_value ht hno (.inr ⟨'<', _, rfl, by decide⟩) hz.close)
  have hstart : ∀ c ∈ " class=\"js-spoilerbox__link bbcode-spoilerbox__link\" href=\"#\" data-widget-toggle=\"".toList,
      c ≠ '<' ∧ c ≠ '>' := by decide
  have hattributes : ∀ c ∈ " class=\"js-spoilerbox__link bbcode-spoilerbox__link\" href=\"#\" data-widget-toggle=\"".toList
      ++ (id ++ ['"']), c ≠ '<' ∧ c ≠ '>' := by
    intro c hc
    simp only [List.mem_append, List.mem_singleton] at hc
    rcases hc with hc | hc | rfl
    · exact hstart c hc
    · obtain ⟨-, -, h1, h2, -⟩ := ne_of_isPlain (hid c hc)
      exact ⟨h1, h2⟩
    · decide
  have hanchor := settled_anchorTag inside rfl hattributes hbody
  have hopen : "<a class=\"js-spoilerbox__link bbcode-spoilerbox__link\" href=\"#\" data-widget-toggle=\"".toList =
      "<a".toList ++ " class=\"js-spoilerbox__link bbcode-spoilerbox__link\" href=\"#\" data-widget-toggle=\"".toList := by
    simp
  have hend : "\"><span class=\"bbcode-spoilerbox__link-icon\"></span>".toList =
      ['"'] ++ (['>'] ++ "<span class=\"bbcode-spoilerbox__link-icon\"></span>".toList) := by
    simp
  unfold Widget.toggleLink
  rw [hopen, hend]
  generalize " class=\"js-spoilerbox__link bbcode-spoilerbox__link\" href=\"#\" data-widget-toggle=\"".toList = x at hanchor ⊢
  generalize "<span class=\"bbcode-spoilerbox__link-icon\"></span>".toList = y at hanchor ⊢
  simp only [List.append_assoc] at hanchor ⊢
  exact hanchor

theorem settled_box {title id : Text} (hid : ∀ c ∈ id, isQuiet c = true) (ht : PlainValue title)
    (hno : ¬ schemeMark <:+: title) (shown : Bool) (hz : Settled inside z) :
    Settled inside ((Widget.headTag id shown ++
      (Widget.toggleLink title id ++ Widget.bodyTag shown)) ++ z) := by
  have hsealed : ∀ {x y : Text}, Sealed x → Settled inside y → Settled inside (x ++ y) := by
    intro x y hx hy
    have hskip : ∀ w, passes foldCase w = true → Skips (readWord? foldCase w) x :=
      fun w hw => hx.skips (.inr rfl) hw
    exact .append (hskip _ (by decide)) (fun _ => hskip _ (by decide))
      (noUrl_of_skips (readUrl?_of_skips (hskip _ (by decide)) (hskip _ (by decide))) hy.noUrl) hy
  have hbody := hsealed (Widget.sealed_bodyTag shown) hz
  have hlink := settled_toggleLink (fun c hc => isPlain_of_isQuiet (hid c hc)) ht hno hbody
  have hhead := hsealed (Widget.sealed_headTag hid shown) hlink
  simpa only [List.append_assoc] using hhead

/-- The elements whose body stands in an anchor. -/
def opensAnchor : Kind → Bool
  | .link | .profile => true
  | _ => false

theorem settled_link {e : Element} (hk : e.kind = .link) (he : e.Valid o) (ns : List Node)
    (hz : Settled true z) : Settled inside (e.before o flag ns ++ z) := by
  obtain ⟨k, v⟩ := e
  have hk : k = .link := hk
  subst hk
  have hstart : ∀ c ∈ " href=\"".toList, c ≠ '<' ∧ c ≠ '>' := by decide
  have hrest : ∀ c ∈ "\" target=\"_blank\" rel=\"noopener noreferrer\"".toList,
      c ≠ '<' ∧ c ≠ '>' := by decide
  have hattributes : ∀ c ∈ " href=\"".toList ++
      (v ++ "\" target=\"_blank\" rel=\"noopener noreferrer\"".toList), c ≠ '<' ∧ c ≠ '>' := by
    intro c hc
    simp only [List.mem_append] at hc
    rcases hc with hc | hc | hc
    · exact hstart c hc
    · exact he.value.ne hc
    · exact hrest c hc
  have hanchor := settled_anchorTag inside rfl hattributes hz
  have hopen : "<a href=\"".toList = "<a".toList ++ " href=\"".toList := by simp
  have hend : "\" target=\"_blank\" rel=\"noopener noreferrer\">".toList =
      "\" target=\"_blank\" rel=\"noopener noreferrer\"".toList ++ ['>'] := by simp
  simp only [Element.before, hopen, hend]
  generalize "\" target=\"_blank\" rel=\"noopener noreferrer\"".toList = x at hanchor ⊢
  simp only [List.append_assoc] at hanchor ⊢
  exact hanchor

theorem plainValue_cardId (ns : List Node) (e : Element) :
    PlainValue (e.cardId ns) ∧ ¬ schemeMark <:+: e.cardId ns := by
  have hchar : ∀ c ∈ e.cardId ns, isPlain c = true ∧ c ≠ '"' ∧ c ≠ ':' := by
    intro c hc
    have hstart : ∀ c ∈ "qtip-".toList, isPlain c = true ∧ c ≠ '"' ∧ c ≠ ':' := by decide
    rcases List.mem_append.1 hc with hc | hc
    · exact hstart c hc
    · have hdigit := isDigit_of_mem_decimal hc
      refine ⟨isPlain_of_isDigit hdigit, ?_, ?_⟩
      · rintro rfl
        exact absurd hdigit (by decide)
      · rintro rfl
        exact absurd hdigit (by decide)
  exact ⟨⟨fun c hc => (hchar c hc).1, fun hc => (hchar _ hc).2.1 rfl⟩,
    noScheme_of_not_mem fun hc => (hchar _ hc).2.2 rfl⟩

theorem settled_profile {e : Element} (hk : e.kind = .profile) (ho : o.Plain) (he : e.Valid o)
    (ns : List Node) (hz : Settled true z) : Settled inside (e.before o flag ns ++ z) := by
  have hcard := (plainValue_cardId ns e).1
  obtain ⟨k, v⟩ := e
  have hk : k = .profile := hk
  subst hk
  have h1 : ∀ c ∈ " class=\"js-usercard\" href=\"".toList, c ≠ '<' ∧ c ≠ '>' := by decide
  have h2 : ∀ c ∈ "\" data-user-id=\"".toList, c ≠ '<' ∧ c ≠ '>' := by decide
  have h3 : ∀ c ∈ "\" data-tooltip-id=\"".toList, c ≠ '<' ∧ c ≠ '>' := by decide
  have h4 : ∀ c ∈ "\" target=\"_blank\" rel=\"noopener noreferrer\"".toList,
      c ≠ '<' ∧ c ≠ '>' := by decide
  have hattributes : ∀ c ∈ " class=\"js-usercard\" href=\"".toList ++ (o.profileUrl ++ (v ++
      ("\" data-user-id=\"".toList ++ (v ++ ("\" data-tooltip-id=\"".toList ++
        ((Element.mk .profile v).cardId ns ++
          "\" target=\"_blank\" rel=\"noopener noreferrer\"".toList)))))), c ≠ '<' ∧ c ≠ '>' := by
    intro c hc
    simp only [List.mem_append] at hc
    rcases hc with hc | hc | hc | hc | hc | hc | hc | hc
    · exact h1 c hc
    · exact ho.profileUrl.ne hc
    · exact he.value.ne hc
    · exact h2 c hc
    · exact he.value.ne hc
    · exact h3 c hc
    · exact hcard.ne hc
    · exact h4 c hc
  have hanchor := settled_anchorTag inside rfl hattributes hz
  have hopen : "<a class=\"js-usercard\" href=\"".toList =
      "<a".toList ++ " class=\"js-usercard\" href=\"".toList := by simp
  have hend : "\" target=\"_blank\" rel=\"noopener noreferrer\">".toList =
      "\" target=\"_blank\" rel=\"noopener noreferrer\"".toList ++ ['>'] := by simp
  simp only [Element.before, hopen, hend]
  generalize "\" target=\"_blank\" rel=\"noopener noreferrer\"".toList = x1 at hanchor ⊢
  generalize " class=\"js-usercard\" href=\"".toList = x2 at hanchor ⊢
  generalize "\" data-user-id=\"".toList = x3 at hanchor ⊢
  generalize "\" data-tooltip-id=\"".toList = x4 at hanchor ⊢
  simp only [List.append_assoc] at hanchor ⊢
  exact hanchor

/-- The HTML in front of a body. -/
theorem settled_before {e : Element} (ho : o.Plain) (he : e.Valid o) (ns : List Node)
    (hz : Settled (opensAnchor e.kind || inside) z) : Settled inside (e.before o flag ns ++ z) := by
  have hno := he.noScheme
  have hlink : e.kind = .link → Settled true z → Settled inside (e.before o flag ns ++ z) :=
    fun hk hz => settled_link hk he ns hz
  have hprofile : e.kind = .profile → Settled true z → Settled inside (e.before o flag ns ++ z) :=
    fun hk hz => settled_profile hk ho he ns hz
  obtain ⟨k, v⟩ := e
  have hv : PlainValue v := he.value
  cases k with
  | link => exact hlink rfl hz
  | profile => exact hprofile rfl hz
  | box => exact settled_box (fun c hc => Widget.isQuiet_of_mem_make hc) hv (hno (by simp)) _ hz
  | spoilerbox =>
    have htitle : PlainValue "SPOILER".toList := ⟨by decide, by decide⟩
    exact settled_box (fun c hc => Widget.isQuiet_of_mem_make hc) htitle
      (noScheme_of_not_mem (by decide)) _ hz
  | color =>
    have hrest : Settled inside (";\">".toList ++ z) := .fixed (by decide) hz
    have hvalue := settled_value hv (hno (by simp)) (.inr ⟨';', _, rfl, by decide⟩) hrest
    have hall : Settled inside ("<span style=\"color:".toList ++ (v ++ (";\">".toList ++ z))) :=
      .fixed (by decide) hvalue
    simpa only [Element.before, List.append_assoc] using hall
  | size =>
    have hrest : Settled inside ("%;\">".toList ++ z) := .fixed (by decide) hz
    have hvalue := settled_value hv (hno (by simp)) (.inr ⟨'%', _, rfl, by decide⟩) hrest
    have hall : Settled inside ("<span style=\"font-size:".toList ++ (v ++ ("%;\">".toList ++ z))) :=
      .fixed (by decide) hvalue
    simpa only [Element.before, List.append_assoc] using hall
  | quoteBy =>
    have hrest : Settled inside (" wrote:</h4>".toList ++ z) := .fixed (by decide) hz
    have hvalue := settled_value hv (hno (by simp)) (.inr ⟨' ', _, rfl, by decide⟩) hrest
    have hall : Settled inside ("<blockquote><h4>".toList ++ (v ++ (" wrote:</h4>".toList ++ z))) :=
      .fixed (by decide) hvalue
    simpa only [Element.before, List.append_assoc] using hall
  | _ =>
    simp only [Element.before]
    exact .fixed (by decide) hz

/-- The HTML behind a body. -/
theorem settled_after {e : Element} (he : e.Valid o) (ns : List Node) (hz : Settled inside z) :
    Settled (opensAnchor e.kind || inside) (e.after ns ++ z) := by
  have hcard := plainValue_cardId ns e
  have hno := he.noScheme
  obtain ⟨k, v⟩ := e
  have hv : PlainValue v := he.value
  cases k with
  | link => exact hz.close
  | profile =>
    have hend : Settled inside ("\" hidden></span>".toList ++ z) := .fixed (by decide) hz
    have hvalue := settled_value hv (hno (by simp)) (.inr ⟨'"', _, rfl, by decide⟩) hend
    have hclass : Settled inside ("\" class=\"qtip qtip--user-card\" data-user-id=\"".toList ++
        (v ++ ("\" hidden></span>".toList ++ z))) := .fixed (by decide) hvalue
    have hid := settled_value hcard.1 hcard.2 (.inr ⟨'"', _, rfl, by decide⟩) hclass
    have hspan : Settled inside ("<span id=\"".toList ++ ((Element.mk .profile v).cardId ns ++
        ("\" class=\"qtip qtip--user-card\" data-user-id=\"".toList ++
          (v ++ ("\" hidden></span>".toList ++ z))))) := .fixed (by decide) hid
    have hclose := hspan.close
    have hsplit : "</a><span id=\"".toList = "</a>".toList ++ "<span id=\"".toList := by
      decide
    simp only [Element.after, hsplit]
    generalize "\" class=\"qtip qtip--user-card\" data-user-id=\"".toList = x at hclose ⊢
    generalize "\" hidden></span>".toList = y at hclose ⊢
    simp only [List.append_assoc]
    exact hclose
  | _ =>
    simp only [Element.after]
    exact .fixed (by decide) hz

/-! ## Trees -/

theorem ends_before (e : Element) (ns : List Node) : Ends (e.before o flag ns ++ z) := by
  obtain ⟨k, v⟩ := e
  cases k <;> exact .inr ⟨'<', _, rfl, by decide⟩

theorem ends_after (e : Element) (ns : List Node) : Ends (e.after ns ++ z) := by
  obtain ⟨k, v⟩ := e
  cases k <;> exact .inr ⟨'<', _, rfl, by decide⟩

theorem settled_placeholder (k : Nat) (hz : Settled inside z) :
    Settled inside (Guarded.placeholder k ++ z) := by
  have hstop : Settled inside ([Guarded.placeholderStop] ++ z) := .fixed (by decide) hz
  have hlabel : ∀ c ∈ Guarded.placeholderStart :: Guarded.label k, c ≠ '<' ∧ c ≠ ':' := by
    intro c hc
    simp only [Guarded.label, List.mem_cons, List.mem_append] at hc
    have hcode : ∀ c ∈ "CODE".toList, c ≠ '<' ∧ c ≠ ':' := by decide
    rcases hc with rfl | hc | hc
    · decide
    · exact hcode c hc
    · have hdigit := isDigit_of_mem_decimal hc
      constructor <;> rintro rfl <;> exact absurd hdigit (by decide)
  have hends : Ends ([Guarded.placeholderStop] ++ z) := .inr ⟨_, _, rfl, by decide⟩
  have hplain := hstop.plain (fun c hc => (hlabel c hc).1)
    (noScheme_of_not_mem fun hc => (hlabel _ hc).2 rfl) hends
  rw [Guarded.placeholder_eq]
  simpa using hplain

variable {done : List Kind} (hall : ∀ k : Kind, k ∈ done)

include hall

theorem ends_staged {p : Place} {d : Doc p} (hd : d.startsWithText = false) (ns : List Node)
    (hz : Ends z) : Ends ((Style.staged o flag done true).write ns d ++ z) := by
  cases d with
  | nil => exact hz
  | text => cases hd
  | code raw rest =>
    exact .inr ⟨Guarded.placeholderStart, _, rfl, by decide⟩
  | element e body rest =>
    rw [Style.write, (Style.staged_of_mem (hall _) ns).1, List.append_assoc]
    exact ends_before e ns
  | item body rest => exact .inr ⟨'<', _, rfl, by decide⟩

/-- A tree in front of a text that is left alone. -/
theorem settled_write (ho : o.Plain) {p : Place} {d : Doc p} (hd : d.Valid o) (ns : List Node)
    (hends : Ends z) (hz : Settled inside z) :
    Settled inside ((Style.staged o flag done true).write ns d ++ z) := by
  induction d generalizing inside ns z with
  | nil => exact hz
  | text s rest ih =>
    obtain ⟨hs, hrest, hvalid⟩ := hd
    rw [Style.write, List.append_assoc]
    exact (ih hvalid ns hends hz).plain (fun c hc => (ne_of_isPlain (hs.plain c hc)).2.2.1)
      hs.noScheme (ends_staged hall hrest ns hends)
  | code raw rest ih =>
    rw [Style.write, List.append_assoc]
    exact settled_placeholder _ (ih hd.2 _ hends hz)
  | element e body rest ihb ihr =>
    obtain ⟨he, -, hbody, hrest⟩ := hd
    obtain ⟨hbefore, hafter⟩ : (Style.staged o flag done true).before ns e = e.before o flag ns ∧
        (Style.staged o flag done true).after ns e = e.after ns := Style.staged_of_mem (hall _) ns
    have hr := ihr hrest (ns ++ .element e :: body.nodes) hends hz
    have ha := settled_after he ns hr
    have hb := ihb hbody (ns ++ [.element e]) (ends_after e ns) ha
    rw [Style.write, hbefore, hafter]
    simp only [List.append_assoc]
    exact settled_before ho he ns hb
  | item body rest ihb ihr =>
    have hr := ihr hd.2 (ns ++ body.nodes) hends hz
    have ha : Settled inside ("</li>".toList ++
        ((Style.staged o flag done true).write (ns ++ body.nodes) rest ++ z)) :=
      .fixed (by decide) hr
    have hb := ihb hd.1 ns (.inr ⟨'<', _, rfl, by decide⟩) ha
    have hall : Settled inside ("<li>".toList ++ ((Style.staged o flag done true).write ns body ++
        ("</li>".toList ++ ((Style.staged o flag done true).write (ns ++ body.nodes) rest ++ z)))) :=
      .fixed (by decide) hb
    rw [Style.write]
    simp only [List.append_assoc]
    exact hall

/-- Linking the bare URLs of a tree changes nothing. -/
theorem autolink_staged (ho : o.Plain) {d : Doc .flow} (hd : d.Valid o) :
    autolink ((Style.staged o flag done true).write [] d) =
      (Style.staged o flag done true).write [] d := by
  have hsettled : Settled false ((Style.staged o flag done true).write [] d ++ []) :=
    settled_write hall ho hd [] (.inl rfl) Settled.nil
  rw [List.append_nil] at hsettled
  exact hsettled.calm

end

end BBCode.Autolink
