import BBCode.Proofs.Doc.Table
import BBCode.Proofs.Template.Items

/-!
# BBCode.Proofs.Doc.Items

Lists on trees. Once the tags of lists are HTML, an item runs from its marker to the marker of the
next item or to the end of its list, because no item holds a list.

* `skips_readBound?_staged`: a tree without lists holds no bound of an item.
* `resolve_staged`: lists and their items are written as HTML.
-/

namespace BBCode.Item

variable {o : Options} {flag : Text → Bool} {done : List Kind}

/-! ## What bounds no item -/

theorem readWord?_id_of_foldCase {w s : Text} (hw : w.map foldCase = w)
    (h : readWord? foldCase w s = none) : readWord? id w s = none := by
  rw [Option.eq_none_iff_forall_ne_some]
  rintro ⟨a, r⟩ ha
  obtain ⟨hmap, rfl⟩ := readWord?_eq_some.1 ha
  rw [List.map_id] at hmap
  rw [hmap, readWord?_self_append hw] at h
  cases h

theorem skips_readBound?_of_foldCase {x : Text}
    (hmarker : Skips (readWord? foldCase markerText) x)
    (hol : Skips (readWord? foldCase "</ol>".toList) x)
    (hul : Skips (readWord? foldCase "</ul>".toList) x) : Skips readBound? x :=
  skips_readBound?_of_words (hmarker.imp fun _ => readWord?_id_of_foldCase (by decide)) hol hul

theorem skips_readBound?_of_not_mem {x : Text} (hmarker : Skips (readWord? foldCase markerText) x)
    (hlt : ∀ c ∈ x, c ≠ '<') : Skips readBound? x := by
  have hend : ∀ w : Text, Skips (readWord? foldCase ('<' :: w)) x := fun w =>
    skips_of_head_ne fun c hc => foldCase_lt (hlt c hc)
  exact skips_readBound?_of_foldCase hmarker (hend _) (hend _)

theorem clashes_markerText (k : Kind) : clashes foldCase markerText k.opener = true ∧
    clashes foldCase markerText k.closer = true := by
  have hall : ∀ k ∈ Kind.all, clashes foldCase markerText k.opener = true ∧
      clashes foldCase markerText k.closer = true := by decide
  exact hall k (Kind.mem_all k)

/-- The HTML of an element that is no list. -/
theorem skips_html {e : Element} (hflow : e.kind.place = .flow) (ho : o.Plain) (he : e.Valid o)
    (ns : List Node) :
    Skips readBound? (e.before o flag ns) ∧ Skips readBound? (e.after ns) := by
  have hol : ∀ k ∈ Kind.all, k.place = .flow → ∀ s ∈ k.texts,
      avoids foldCase "</ol>".toList s = true := by decide
  have hul : ∀ k ∈ Kind.all, k.place = .flow → ∀ s ∈ k.texts,
      avoids foldCase "</ul>".toList s = true := by decide
  have hol := Element.skips_html (hol _ (Kind.mem_all _) hflow) ho he flag ns
  have hul := Element.skips_html (hul _ (Kind.mem_all _) hflow) ho he flag ns
  exact ⟨skips_readBound?_of_foldCase ((Element.markup_before ho he flag ns).skips _) hol.1 hul.1,
    skips_readBound?_of_foldCase ((Element.markup_after he ns).skips _) hol.2 hul.2⟩

theorem skips_staged_frames {e : Element} {items : Bool} (hflow : e.kind.place = .flow)
    (ho : o.Plain) (he : e.Valid o) (ns : List Node) :
    Skips readBound? ((Style.staged o flag done items).before ns e) ∧
      Skips readBound? ((Style.staged o flag done items).after ns e) := by
  by_cases hdone : e.kind ∈ done
  · have hhtml : Skips readBound? (e.before o flag ns) ∧ Skips readBound? (e.after ns) :=
      skips_html hflow ho he ns
    rwa [(Style.staged_of_mem hdone ns).1, (Style.staged_of_mem hdone ns).2]
  · have hopen := Element.skips_source_before he (clashes_markerText e.kind).1 ns
    have hclose := Kind.skips_closer (clashes_markerText e.kind).2
    have hbefore : Skips readBound? (Style.source.before ns e) :=
      skips_readBound?_of_not_mem hopen fun c hc => (Element.ne_of_mem_source_before he ns hc).1
    have hafter : Skips readBound? (Style.source.after ns e) :=
      skips_readBound?_of_not_mem hclose fun c hc => (Element.ne_of_mem_source_after ns hc).1
    rw [(Style.staged_of_not_mem hdone ns).1, (Style.staged_of_not_mem hdone ns).2]
    exact ⟨hbefore, hafter⟩

theorem skips_text {s : Text} (hs : PlainText s) : Skips readBound? s :=
  skips_readBound?_of_not_mem hs.skips fun c hc => (ne_of_isPlain (hs.plain c hc)).2.2.1

theorem skips_placeholder (k : Nat) : Skips readBound? (Guarded.placeholder k) :=
  skips_readBound?_of_not_mem
    (skips_of_head_ne fun _ hc => foldCase_bracket (Guarded.ne_of_mem_placeholder hc).1)
    fun _ hc => (Guarded.ne_of_mem_placeholder hc).2.1

/-- A tree without lists holds no bound of an item. -/
theorem skips_readBound?_staged {items : Bool} (ho : o.Plain) {d : Doc .flow} (hd : d.Valid o)
    (havoid : d.Avoids "list".toList) (ns : List Node) :
    Skips readBound? ((Style.staged o flag done items).write ns d) := by
  refine Style.write_closed trivial Skips.append (fun s hs => skips_text hs)
    (fun ns raw _ => skips_placeholder _) (fun ns e he hv => ?_)
    (fun hi => absurd hi havoid.not_hasItems) hd ns
  have hflow : e.kind.place = .flow := by
    have hne := havoid e he
    cases hk : e.kind <;> rw [hk] at hne <;> first | rfl | exact absurd rfl hne
  exact skips_staged_frames hflow ho hv ns

/-! ## Writing items -/

theorem write_skips {x : Text} (h : Skips readBound? x) (z : Text) :
    write (pattern.pieces (x ++ z)) = x ++ write (pattern.pieces z) := by
  rw [Pattern.pieces_append h, write_plain]

theorem pieces_marker (z : Text) :
    pattern.pieces (markerText ++ z) = .found .marker :: pattern.pieces z := by
  have hread : pattern.read? (markerText ++ z) = some (.marker, z) := by
    show readBound? (markerText ++ z) = _
    rw [readBound?, readWord?_self_append (List.map_id _)]
  exact Pattern.pieces_of_read hread

theorem pieces_listEnd (z : Text) :
    pattern.pieces ("</ol>".toList ++ z) = .found (.listEnd "</ol>".toList) :: pattern.pieces z := by
  have hmarker : readWord? id markerText ("</ol>".toList ++ z) = none :=
    readWord?_of_clashes (by decide) z
  have hend : readWord? foldCase "</ol>".toList ("</ol>".toList ++ z) = some ("</ol>".toList, z) :=
    readWord?_self_append (by decide) z
  have hread : pattern.read? ("</ol>".toList ++ z) = some (.listEnd "</ol>".toList, z) := by
    show readBound? ("</ol>".toList ++ z) = _
    rw [readBound?, hmarker, hend]
    rfl
  exact Pattern.pieces_of_read hread

/-- The text starts with a bound of an item. -/
def StartsBound (z : Text) : Prop := ∃ b ps, pattern.pieces z = .found b :: ps

theorem startsBound_items {p : Place} (hp : p = .list) (d : Doc p) (ns : List Node) {z : Text}
    (hz : StartsBound z) : StartsBound ((Style.staged o flag done false).write ns d ++ z) := by
  cases d with
  | nil => exact hz
  | item body rest =>
    rw [Style.write, List.append_assoc]
    exact ⟨_, _, pieces_marker _⟩
  | text => cases hp
  | code => cases hp
  | element => cases hp

theorem write_item {b z : Text} (hb : Skips readBound? b) (hub : Unbroken b) (hz : StartsBound z) :
    write (pattern.pieces (markerText ++ (b ++ z))) =
      "<li>".toList ++ (b ++ ("</li>".toList ++ write (pattern.pieces z))) := by
  obtain ⟨bound, ps, hps⟩ := hz
  have hup : upToBound? (pattern.pieces (b ++ z)) = some (b, pattern.pieces z) := by
    rw [Pattern.pieces_append hb, upToBound?_plain, hps]
    simp [upToBound?]
  rw [pieces_marker, write_marker_of_some hup, element, hub.trimBreaks]
  simp only [Rule.between, List.append_assoc]

/-- Items differ between the two styles, and stand in lists only. -/
theorem staged_items {d : Doc .flow} (havoid : d.Avoids "list".toList) (ns : List Node) :
    (Style.staged o flag done true).write ns d = (Style.staged o flag done false).write ns d :=
  Style.write_congr (S := Style.staged o flag done true) (T := Style.staged o flag done false)
    (fun _ _ => rfl) (fun _ _ _ => ⟨rfl, rfl⟩) (fun hi => absurd hi havoid.not_hasItems) ns

/-- The items of a list, in front of its end. -/
theorem write_items (ho : o.Plain) {p : Place} (hp : p = .list) {d : Doc p} (hd : d.Valid o)
    (havoid : d.Avoids "list".toList) (ns : List Node) {z : Text} (hz : StartsBound z) :
    write (pattern.pieces ((Style.staged o flag done false).write ns d ++ z)) =
      (Style.staged o flag done true).write ns d ++ write (pattern.pieces z) := by
  induction d generalizing ns with
  | nil => rfl
  | text => cases hp
  | code => cases hp
  | element => cases hp
  | item body rest ihb ihr =>
    have hbody : body.Avoids "list".toList := fun e he => havoid e (List.mem_append_left _ he)
    have hrest : rest.Avoids "list".toList := fun e he => havoid e (List.mem_append_right _ he)
    have hskip : Skips readBound? ((Style.staged o flag done false).write ns body) :=
      skips_readBound?_staged ho hd.1 hbody ns
    have hub : Unbroken ((Style.staged o flag done false).write ns body) :=
      unbroken_staged ho hd.1 ns
    have hstart : StartsBound
        ((Style.staged o flag done false).write (ns ++ body.nodes) rest ++ z) :=
      startsBound_items rfl rest (ns ++ body.nodes) hz
    have hitem := write_item hskip hub hstart
    have hr := ihr rfl hd.2 hrest (ns ++ body.nodes)
    have hsource : (Style.staged o flag done false).write ns (.item body rest) ++ z =
        markerText ++ ((Style.staged o flag done false).write ns body ++
          ((Style.staged o flag done false).write (ns ++ body.nodes) rest ++ z)) := by
      rw [Style.write]
      simp only [List.append_assoc]
      rfl
    rw [hsource, hitem, hr, Style.write, staged_items hbody]
    simp only [List.append_assoc]
    rfl

theorem skips_listStart : Skips readBound? "<ol>".toList ∧
    Skips readBound? "<ol class=\"unordered\">".toList :=
  ⟨skips_readBound?_of_words (skips_of_avoids (by decide)) (skips_of_avoids (by decide))
      (skips_of_avoids (by decide)),
    skips_readBound?_of_words (skips_of_avoids (by decide)) (skips_of_avoids (by decide))
      (skips_of_avoids (by decide))⟩

/-- The HTML of a list bounds its last item where the list ends, and nothing before that. -/
theorem listFrames {e : Element} (hplace : e.kind.place = .list) (ns : List Node) :
    Skips readBound? (e.before o flag ns) ∧ e.after ns = "</ol>".toList := by
  obtain ⟨k, v⟩ := e
  cases k with
  | listOf => exact ⟨skips_listStart.1, rfl⟩
  | list => exact ⟨skips_listStart.2, rfl⟩
  | _ => cases hplace

/-- The lists of a tree, in front of some text. -/
theorem write_staged (ho : o.Plain) (hlist : ∀ k : Kind, k.place = .list → k ∈ done) {p : Place}
    (hp : p = .flow) {d : Doc p} (hd : d.Valid o) (ns : List Node) (z : Text) :
    write (pattern.pieces ((Style.staged o flag done false).write ns d ++ z)) =
      (Style.staged o flag done true).write ns d ++ write (pattern.pieces z) := by
  induction d generalizing ns z with
  | nil => rfl
  | item => cases hp
  | text s rest ih =>
    rw [Style.write, Style.write, List.append_assoc, write_skips (skips_text hd.1), ih rfl hd.2.2,
      List.append_assoc]
  | code raw rest ih =>
    have hcode := skips_placeholder (codes ns).length
    have hskip : Skips readBound? ((Style.staged o flag done false).code ns raw) := hcode
    rw [Style.write, Style.write, List.append_assoc, write_skips hskip, ih rfl hd.2,
      List.append_assoc]
    rfl
  | element e body rest ihb ihr =>
    obtain ⟨he, havoid, hbody, hrest⟩ := hd
    have hr := ihr rfl hrest (ns ++ .element e :: body.nodes) z
    rw [Style.write, Style.write]
    simp only [List.append_assoc]
    have hcases : ∀ q : Place, q = .flow ∨ q = .list := fun q => by cases q <;> decide
    rcases hcases e.kind.place with hplace | hplace
    · obtain ⟨hbefore, hafter⟩ : Skips readBound? ((Style.staged o flag done false).before ns e) ∧
          Skips readBound? ((Style.staged o flag done false).after ns e) :=
        skips_staged_frames hplace ho he ns
      rw [write_skips hbefore, ihb hplace hbody, write_skips hafter, hr]
      rfl
    · have hname : e.kind.name = "list".toList ∧ e.kind.nests = false := by
        cases hk : e.kind <;> rw [hk] at hplace <;> first | exact ⟨rfl, rfl⟩ | cases hplace
      have havoid : body.Avoids "list".toList := hname.1 ▸ havoid hname.2
      have hdone := hlist e.kind hplace
      obtain ⟨hopen, hclose⟩ : Skips readBound? (e.before o flag ns) ∧ e.after ns = "</ol>".toList :=
        listFrames hplace ns
      have hbefore : Skips readBound? ((Style.staged o flag done false).before ns e) := by
        rwa [(Style.staged_of_mem hdone ns).1]
      have hafter : (Style.staged o flag done false).after ns e = "</ol>".toList := by
        rwa [(Style.staged_of_mem hdone ns).2]
      have hafter' : (Style.staged o flag done true).after ns e = "</ol>".toList := hafter
      have hend : ∀ y, StartsBound ("</ol>".toList ++ y) := fun y => ⟨_, _, pieces_listEnd y⟩
      rw [write_skips hbefore, hafter, write_items ho hplace hbody havoid _ (hend _), pieces_listEnd,
        write, hr, hafter']
      rfl

theorem split_staged (ho : o.Plain) (hlist : ∀ k : Kind, k.place = .list → k ∈ done)
    {d : Doc .flow} (hd : d.Valid o) :
    split ((Style.staged o flag done false).write [] d) =
      (Style.staged o flag done true).write [] d := by
  have hw : write (pattern.pieces ((Style.staged o flag done false).write [] d ++ [])) =
      (Style.staged o flag done true).write [] d ++ write (pattern.pieces []) :=
    write_staged ho hlist rfl hd [] []
  rw [List.append_nil, Pattern.pieces_nil, write, List.append_nil] at hw
  exact hw

/-- Lists and their items are written as HTML. -/
theorem resolve_staged (hdone : ([Kind.list, .listOf] ++ done).Nodup) (ho : o.Plain) {d : Doc .flow}
    (hd : d.Valid o) (t : Tally) :
    resolve o ((Style.staged o flag done false).write [] d, t) =
      ((Style.staged o flag ([.list, .listOf] ++ done) true).write [] d, t) := by
  have hordered : Renders o flag .listOf fun _ r => orderedList r.param r.body :=
    renders_between_trim (fun _ _ => rfl) fun _ _ => rfl
  have hplain : Renders o flag .list fun _ r => unorderedList r.body :=
    renders_between_trim (fun _ _ => rfl) fun _ _ => rfl
  have hrules : Treats o flag [.listOf, .list] rules := .element hordered (.element hplain .nil)
  have hall : Rule.applyAll o rules ((Style.staged o flag done false).write [] d, t) =
      ((Style.staged o flag ([.list, .listOf] ++ done) false).write [] d, t) :=
    hrules.applyAll hdone (by decide) ho hd t
  have hlist : ∀ k : Kind, k.place = .list → k ∈ [Kind.list, .listOf] ++ done := by
    intro k hk
    cases k <;> first | exact absurd hk (by decide) | simp
  simp only [resolve, hall, split_staged ho hlist hd]

end BBCode.Item
