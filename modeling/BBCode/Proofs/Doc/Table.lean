import BBCode.Proofs.Doc.Rules
import BBCode.Proofs.Guard.Bodies
import BBCode.Proofs.Text.Occurs

/-!
# BBCode.Proofs.Doc.Table

The stages of rules on trees. Each rule writes the elements of one kind as HTML, or is about tags
that no tree has and changes nothing; and so are the rules about line breaks.

* `Treats.applyAll`: the rules of a stage, one after the other.
* `apply_staged`, `apply_linksAndMedia`: the stages of the language.
-/

namespace BBCode

section

variable {o : Options} {flag : Text → Bool} {done : List Kind} {items : Bool} {p : Place} {d : Doc p}

namespace Rule

theorem apply_element {k : Kind} {f : Region → Text} (hf : Renders o flag k fun _ => f)
    (hk : k ∉ done) (hnests : k.nests = false) (ho : o.Plain) (hd : d.Valid o) (name : String)
    (t : Tally) :
    (Rule.mk name (k.pair o).pattern (.replace f)).apply o
        ((Style.staged o flag done items).write [] d, t) =
      ((Style.staged o flag (k :: done) items).write [] d, t) := by
  rw [apply_replace, Pattern.substitute, ← Piece.fillFrom_const f 0,
    fillFrom_staged hf hk hnests ho hd]

theorem apply_numbered_element {k : Kind} {f : Options → Nat → Region → Text}
    (hf : Renders o flag k (f o)) (hk : k ∉ done) (hnests : k.nests = false) (ho : o.Plain)
    (hd : d.Valid o) (name : String) {t : Tally} (ht : t.cards = 0) :
    (Rule.mk name (k.pair o).pattern (.numbered f)).apply o
        ((Style.staged o flag done items).write [] d, t) =
      ((Style.staged o flag (k :: done) items).write [] d, { t with cards := k.count d.nodes }) := by
  simp only [Rule.apply, ht, fillFrom_staged hf hk hnests ho hd]

end Rule

/-- The opening tag is read in no tag of a tree. -/
def TagPair.Foreign (t : TagPair) : Prop :=
  (∀ k ∈ Kind.all, clashes foldCase t.opener k.opener = true ∧
    clashes foldCase t.opener k.closer = true) ∧ clashes foldCase t.opener "[*]".toList = true

theorem TagPair.Foreign.apply {t : TagPair} (h : t.Foreign) (ho : o.Plain) (hd : d.Valid o)
    (name : String) (f : Region → Text) (u : Tally) :
    (Rule.mk name t.pattern (.replace f)).apply o
        ((Style.staged o flag done items).write [] d, u) =
      ((Style.staged o flag done items).write [] d, u) := by
  have hskip : Skips t.pattern.read? ((Style.staged o flag done items).write [] d) :=
    TagPair.skips_readPair? (skips_staged ho hd (fun e _ => h.1 _ (Kind.mem_all _)) (fun _ => h.2) [])
  rw [Rule.apply_replace, Pattern.substitute_eq_self hskip]

/-- Rules that write the elements of some kinds, one kind after the other, and rules about other
tags between them. -/
inductive Treats (o : Options) (flag : Text → Bool) : List Kind → List Rule → Prop where
  | nil : Treats o flag [] []
  | element {k : Kind} {ks : List Kind} {rs : List Rule} {name : String} {f : Region → Text}
      (hf : Renders o flag k fun _ => f) (hrs : Treats o flag ks rs) :
      Treats o flag (k :: ks) (⟨name, (k.pair o).pattern, .replace f⟩ :: rs)
  | foreign {ks : List Kind} {rs : List Rule} {name : String} {t : TagPair} {f : Region → Text}
      (ht : t.Foreign) (hrs : Treats o flag ks rs) :
      Treats o flag ks (⟨name, t.pattern, .replace f⟩ :: rs)

theorem Treats.applyAll {ks : List Kind} {rs : List Rule} (h : Treats o flag ks rs)
    (hnodup : (ks.reverse ++ done).Nodup) (hnests : ∀ k ∈ ks, k.nests = false) (ho : o.Plain)
    (hd : d.Valid o) (t : Tally) :
    Rule.applyAll o rs ((Style.staged o flag done items).write [] d, t) =
      ((Style.staged o flag (ks.reverse ++ done) items).write [] d, t) := by
  induction h generalizing done with
  | nil => rfl
  | @element k ks rs name f hf hrs ih =>
    rw [List.reverse_cons, List.append_assoc, List.singleton_append] at hnodup ⊢
    have hk : k ∉ done := (List.nodup_cons.1 (List.nodup_append.1 hnodup).2.1).1
    have hr := ih hnodup fun j hj => hnests j (List.mem_cons_of_mem _ hj)
    rw [← hr]
    exact congrArg (Rule.applyAll o rs)
      (Rule.apply_element hf hk (hnests k List.mem_cons_self) ho hd name t)
  | @foreign ks rs name t' f ht hrs ih =>
    rw [← ih hnodup hnests]
    exact congrArg (Rule.applyAll o rs) (ht.apply ho hd name f t)

/-! ## What the rules write -/

theorem renders_between {k : Kind} {before after : String}
    (hbefore : ∀ ns v, (Element.mk k v).before o flag ns = before.toList)
    (hafter : ∀ ns v, (Element.mk k v).after ns = after.toList) :
    Renders o flag k fun _ r => Rule.between before after r.body := by
  intro ns v b _ _
  simp only [hbefore, hafter, Rule.between, List.append_assoc]

theorem renders_between_trim {k : Kind} {before after : String}
    (hbefore : ∀ ns v, (Element.mk k v).before o flag ns = before.toList)
    (hafter : ∀ ns v, (Element.mk k v).after ns = after.toList) :
    Renders o flag k fun _ r => Rule.between before after r.body.trimBreaks := by
  intro ns v b _ hb
  simp only [hbefore, hafter, Rule.between, hb.trimBreaks, List.append_assoc]

theorem renders_valued {k : Kind} {before mid after : String} {f : Text → Text}
    (hbefore : ∀ ns v, (Element.mk k v).before o flag ns = before.toList ++ v ++ mid.toList)
    (hafter : ∀ ns v, (Element.mk k v).after ns = after.toList)
    (hf : ∀ b, Unbroken b → f b = b) :
    Renders o flag k fun _ r =>
      Rule.between before mid r.param ++ Rule.between "" after (f r.body) := by
  intro ns v b _ hb
  simp only [hbefore, hafter, Rule.between, hf b hb, List.append_assoc]
  rfl

theorem renders_inlineCode : Renders o flag .inlineCode fun _ => Stage.inlineCodeSpan := by
  intro ns v b _ hb
  simp only [Stage.inlineCodeSpan, hb.nearest?, Option.isSome_none, Bool.false_eq_true, if_false]
  exact List.append_assoc _ _ _

theorem renders_link : Renders o flag .link fun _ r => Html.link r.param r.body := by
  intro ns v b _ _
  unfold Html.link
  simp only [Element.before, Element.after]
  generalize "<a href=\"".toList = x
  generalize "\" target=\"_blank\" rel=\"noopener noreferrer\">".toList = y
  simp only [List.append_assoc]

theorem renders_profile : Renders o flag .profile (Stage.profile o) := by
  intro ns v b _ _
  have hnum : Kind.profile.count ns = (Element.mk .profile v).number ns :=
    (Element.number_eq_count (e := ⟨.profile, v⟩) (by simp) ns).symm
  unfold Stage.profile Html.profileLink
  simp only [Element.before, Element.after, Element.cardId, hnum, Html.cardPrefix]
  generalize "<a class=\"js-usercard\" href=\"".toList = x1
  generalize "\" data-user-id=\"".toList = x2
  generalize "\" data-tooltip-id=\"".toList = x3
  generalize "\" target=\"_blank\" rel=\"noopener noreferrer\">".toList = x4
  generalize "</a><span id=\"".toList = x5
  generalize "\" class=\"qtip qtip--user-card\" data-user-id=\"".toList = x6
  generalize "\" hidden></span>".toList = x7
  simp only [List.append_assoc]

/-! ## Line breaks -/

theorem readWord?_eq_none_of_forall_ne {f : Char → Char} {w s : Text} {c : Char} (hc : c ∈ w)
    (h : ∀ d ∈ s, f d ≠ c) : readWord? f w s = none := by
  refine readWord?_of_not_isInfix fun hi => ?_
  obtain ⟨d, hd, heq⟩ := List.mem_map.1 (hi.subset hc)
  exact h d hd heq

namespace Rule

theorem apply_respell_of_forall_ne {name : String} {f : Char → Char} {w : Text} {hw : w ≠ []}
    {by_ : Text} {c : Char} (hc : c ∈ w) {x : Text × Tally} (h : ∀ d ∈ x.1, f d ≠ c) :
    (respell name f w hw by_).apply o x = x := by
  refine apply_of_misses fun t ht => ?_
  have hn : readWord? f w t = none := readWord?_eq_none_of_forall_ne hc fun d hd => h d (ht.subset hd)
  exact Option.map_eq_none_iff.2 hn

theorem readTagBreak?_of_nearest? {tag s : Text} (h : nearest? id lineBreak s = none) {t : Text}
    (ht : t <:+ s) : readTagBreak? tag t = none := by
  rw [Option.eq_none_iff_forall_ne_some]
  rintro ⟨a, r⟩ hr
  unfold readTagBreak? at hr
  split at hr
  · cases hr
  · rename_i w q hq
    obtain ⟨-, rfl⟩ := readWord?_eq_some.1 hq
    simp only [Option.map_eq_some_iff] at hr
    obtain ⟨x, hx, -⟩ := hr
    obtain ⟨u, rfl⟩ := ht
    have hne : nearest? id lineBreak (q.dropWhile isBlank) ≠ none := by
      rw [nearest?_of_read hx]
      simp
    rw [← List.takeWhile_append_dropWhile (p := isBlank) (l := q)] at h
    exact nearest?_append_ne_none (nearest?_append_ne_none (nearest?_append_ne_none hne)) h

theorem apply_dropBreakAfter_of_nearest? {name tag : String} {x : Text × Tally}
    (h : nearest? id lineBreak x.1 = none) : (dropBreakAfter name tag).apply o x = x :=
  apply_of_misses fun _ ht => Option.map_eq_none_iff.2 (readTagBreak?_of_nearest? h ht)

end Rule

theorem ne_lt_of_mem_staged (hd : d.Valid o) (ns : List Node) :
    ∀ c ∈ (Style.staged o flag [] false).write ns d, c ≠ '<' := by
  refine Style.write_closed (S := Style.staged o flag [] false) (P := fun s => ∀ c ∈ s, c ≠ '<')
    (by simp) ?_ ?_ ?_ ?_ (fun _ => ⟨?_, ?_⟩) hd ns
  · intro s t hs ht c hc
    rcases List.mem_append.1 hc with hc | hc
    · exact hs c hc
    · exact ht c hc
  · exact fun s hs c hc => (ne_of_isPlain (hs.plain c hc)).2.2.1
  · exact fun ns raw _ c hc => (Guarded.ne_of_mem_placeholder hc).2.1
  · exact fun ns e _ he => ⟨fun c hc => (Element.ne_of_mem_source_before he ns hc).1,
      fun c hc => (Element.ne_of_mem_source_after ns hc).1⟩
  · have hmarker : ∀ c ∈ "[*]".toList, c ≠ '<' := by decide
    exact hmarker
  · intro c hc
    cases hc

/-! ## Stages -/

namespace Stage

theorem apply_lineBreaks (ho : o.Plain) (hd : d.Valid o) (t : Tally) :
    lineBreaks.apply o ((Style.staged o flag [] false).write [] d, t) =
      ((Style.staged o flag [] false).write [] d, t) := by
  have hlt : ∀ c ∈ (Style.staged o flag [] false).write [] d, c ≠ '<' := ne_lt_of_mem_staged hd []
  have hub : Unbroken ((Style.staged o flag [] false).write [] d) := unbroken_staged ho hd []
  have hline := hub.chars
  generalize (Style.staged o flag [] false).write [] d = s at hlt hline ⊢
  have hreturn : ∀ c ∈ s, id c ≠ '\r' := by
    rintro c hc rfl
    exact absurd (hline _ hc) (by decide)
  have hfeed : ∀ c ∈ s, id c ≠ '\n' := by
    rintro c hc rfl
    exact absurd (hline _ hc) (by decide)
  have hheading : ∀ c ∈ s, foldCase c ≠ '<' := fun c hc => foldCase_lt (hlt c hc)
  simp only [Stage.apply, rules, Rule.applyAll, List.foldl_cons, List.foldl_nil]
  rw [Rule.apply_respell_of_forall_ne (x := (s, t)) (c := '\r') (by decide) hreturn,
    Rule.apply_respell_of_forall_ne (x := (s, t)) (c := '\n') (by decide) hfeed,
    Rule.apply_respell_of_forall_ne (x := (s, t)) (c := '<') (by decide) hheading]

theorem apply_collapseBreaks {s : Text} (h : Unbroken s) (t : Tally) :
    collapseBreaks.apply o (s, t) = (s, t) := by
  simp only [Stage.apply, rules, Rule.applyAll, List.foldl_cons, List.foldl_nil]
  rw [Rule.apply_dropBreakAfter_of_nearest? (x := (s, t)) h.nearest?,
    Rule.apply_dropBreakAfter_of_nearest? (x := (s, t)) h.nearest?]

/-- The kinds that a stage is about, in the order of its rules. -/
def kinds : Stage → List Kind
  | formatting => [.bold, .italic, .underline, .strike, .strikeLong]
  | color => [.color]
  | specials => [.spoiler]
  | quotes => [.quote, .quoteBy]
  | inlineCode => [.inlineCode]
  | layout => [.centre]
  | linksAndMedia => [.link, .profile]
  | trailing => [.heading, .notice]
  | lineBreaks | collapseBreaks => []

theorem treats_rules {s : Stage}
    (hs : s ∈ [formatting, color, specials, quotes, inlineCode, layout, trailing]) :
    Treats o flag s.kinds s.rules := by
  have hquote : ∀ b, Unbroken b → b.trimBreaks = b := fun b hb => hb.trimBreaks
  simp only [List.mem_cons, List.not_mem_nil, or_false] at hs
  rcases hs with rfl | rfl | rfl | rfl | rfl | rfl | rfl
  · have hbold : Renders o flag .bold fun _ r => Rule.between "<strong>" "</strong>" r.body :=
      renders_between (fun _ _ => rfl) fun _ _ => rfl
    have hitalic : Renders o flag .italic fun _ r => Rule.between "<em>" "</em>" r.body :=
      renders_between (fun _ _ => rfl) fun _ _ => rfl
    have hunderline : Renders o flag .underline fun _ r => Rule.between "<u>" "</u>" r.body :=
      renders_between (fun _ _ => rfl) fun _ _ => rfl
    have hstrike : Renders o flag .strike fun _ r => Rule.between "<s>" "</s>" r.body :=
      renders_between (fun _ _ => rfl) fun _ _ => rfl
    have hlong : Renders o flag .strikeLong fun _ r => Rule.between "<s>" "</s>" r.body :=
      renders_between (fun _ _ => rfl) fun _ _ => rfl
    exact .element hbold (.element hitalic (.element hunderline (.element hstrike
      (.element hlong .nil))))
  · have hcolor : Renders o flag .color fun _ r =>
        Rule.between "<span style=\"color:" ";\">" r.param ++ Rule.between "" "</span>" r.body :=
      renders_valued (f := id) (fun _ _ => rfl) (fun _ _ => rfl) fun _ _ => rfl
    exact .element hcolor .nil
  · have hspoiler : Renders o flag .spoiler fun _ r => Rule.between
        "<span class=\"spoiler\" onclick=\"this.classList.toggle('revealed')\">" "</span>" r.body :=
      renders_between (fun _ _ => rfl) fun _ _ => rfl
    exact .element hspoiler .nil
  · have hbare : Renders o flag .quote fun _ r => quote r.body :=
      renders_between_trim (fun _ _ => rfl) fun _ _ => rfl
    have hby : Renders o flag .quoteBy fun _ r => attributedQuote r.param r.body :=
      renders_valued (fun _ _ => rfl) (fun _ _ => rfl) hquote
    exact .element hbare (.element hby .nil)
  · exact .element renders_inlineCode .nil
  · have hcentre : Renders o flag .centre fun _ r => Rule.between "<center>" "</center>" r.body :=
      renders_between (fun _ _ => rfl) fun _ _ => rfl
    exact .element hcentre .nil
  · have hheading : Renders o flag .heading fun _ r =>
        Rule.between "<h2 class=\"osu-heading\">" "</h2>" r.body :=
      renders_between (fun _ _ => rfl) fun _ _ => rfl
    have hnotice : Renders o flag .notice fun _ r => notice r.body :=
      renders_between_trim (fun _ _ => rfl) fun _ _ => rfl
    have hemail : (TagPair.mk "email".toList (some .any)).Foreign := by
      unfold TagPair.Foreign
      decide
    exact .foreign hemail (.element hheading (.element hnotice .nil))

theorem apply_linksAndMedia (hdone : (linksAndMedia.kinds.reverse ++ done).Nodup) (ho : o.Plain)
    (hd : d.Valid o) {t : Tally} (ht : t.cards = 0) :
    linksAndMedia.apply o ((Style.staged o flag done items).write [] d, t) =
      ((Style.staged o flag (linksAndMedia.kinds.reverse ++ done) items).write [] d,
        { t with cards := Kind.profile.count d.nodes }) := by
  have hprofile : Kind.profile ∉ [Kind.link] ++ done := (List.nodup_cons.1 hdone).1
  have hlinks : Treats o flag [.link] (linksAndMedia.rules.take 2) := by
    have hurl : (TagPair.mk "url".toList none).Foreign := by
      unfold TagPair.Foreign
      decide
    exact .foreign hurl (.element renders_link .nil)
  have hmedia : Treats o flag [] (linksAndMedia.rules.drop 3) := by
    have himage : (TagPair.mk "img".toList none).Foreign := by
      unfold TagPair.Foreign
      decide
    have hsized : (TagPair.mk "img".toList (some .any)).Foreign := by
      unfold TagPair.Foreign
      decide
    have hyoutube : (TagPair.mk "youtube".toList none).Foreign := by
      unfold TagPair.Foreign
      decide
    have haudio : (TagPair.mk "audio".toList none).Foreign := by
      unfold TagPair.Foreign
      decide
    exact .foreign himage (.foreign hsized (.foreign hyoutube (.foreign haudio .nil)))
  have happly : ∀ x, linksAndMedia.apply o x = Rule.applyAll o (linksAndMedia.rules.drop 3)
      ((Rule.mk "profile" (Kind.profile.pair o).pattern (.numbered profile)).apply o
        (Rule.applyAll o (linksAndMedia.rules.take 2) x)) := fun _ => rfl
  have hlink : Rule.applyAll o (linksAndMedia.rules.take 2)
      ((Style.staged o flag done items).write [] d, t) =
        ((Style.staged o flag ([.link] ++ done) items).write [] d, t) :=
    hlinks.applyAll (List.nodup_cons.1 hdone).2 (by decide) ho hd t
  rw [happly, hlink, Rule.apply_numbered_element renders_profile hprofile rfl ho hd _ ht]
  exact hmedia.applyAll hdone (by simp) ho hd _

/-- The stages that rewrite elements and count nothing. -/
theorem apply_staged {s : Stage}
    (hs : s ∈ [formatting, color, specials, quotes, inlineCode, layout, trailing])
    (hdone : (s.kinds.reverse ++ done).Nodup) (ho : o.Plain) (hd : d.Valid o) (t : Tally) :
    s.apply o ((Style.staged o flag done items).write [] d, t) =
      ((Style.staged o flag (s.kinds.reverse ++ done) items).write [] d, t) := by
  have hnests : ∀ s : Stage, ∀ k ∈ s.kinds, k.nests = false := by
    intro s
    cases s <;> decide
  exact (treats_rules hs).applyAll hdone (hnests s) ho hd t

end Stage

theorem Doc.Valid.element (hd : d.Valid o) {e : Element} (he : .element e ∈ d.nodes) :
    e.Valid o := by
  induction d with
  | nil => cases he
  | text s rest ih => exact ih hd.2.2 he
  | code raw rest ih =>
    rcases List.mem_cons.1 he with he | he
    · cases he
    · exact ih hd.2 he
  | element f body rest ihb ihr =>
    obtain ⟨hf, -, hbody, hrest⟩ := hd
    simp only [nodes, List.mem_cons, List.mem_append, Node.element.injEq] at he
    rcases he with rfl | he | he
    · exact hf
    · exact ihb hbody he
    · exact ihr hrest he
  | item body rest ihb ihr =>
    rcases List.mem_append.1 he with he | he
    · exact ihb hd.1 he
    · exact ihr hd.2 he

/-- Without allowed sizes there is no rule for sizes, and no element either. -/
theorem Step.apply_size (hdone : .size ∉ done) (ho : o.Plain) (hd : d.Valid o) (t : Tally) :
    Step.size.apply o ((Style.staged o flag done items).write [] d, t) =
      ((Style.staged o flag (.size :: done) items).write [] d, t) := by
  have hsize : Renders o flag .size fun _ r =>
      Rule.between "<span style=\"font-size:" "%;\">" r.param ++ Rule.between "" "</span>" r.body :=
    renders_valued (f := id) (fun _ _ => rfl) (fun _ _ => rfl) fun _ _ => rfl
  simp only [Step.apply]
  cases hallowed : o.allowedSizes with
  | nil =>
    have hnone : ∀ e, .element e ∈ d.nodes → e.kind ≠ .size := by
      intro e he hk
      obtain ⟨n, hn, -⟩ := (hd.element he).size hk
      rw [hallowed] at hn
      cases hn
    rw [Style.staged_cons hnone]
    rfl
  | cons n ns =>
    rw [← hallowed, Rule.size?, if_neg (by simp [hallowed])]
    exact Rule.apply_element hsize hdone rfl ho hd "size" t

end

end BBCode
