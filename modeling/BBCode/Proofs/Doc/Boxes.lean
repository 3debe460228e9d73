import BBCode.Proofs.Doc.Rules
import BBCode.Proofs.Flags
import BBCode.Proofs.Tag.Grammar

/-!
# BBCode.Proofs.Doc.Boxes

Boxes on trees. Every opening tag of a box meets its own closing tag, however boxes nest, so no
box stays open and each is written as the widget with the number it has in document order.

* `filling_restyles`: a run over the tags of a tree writes its HTML into the innermost open box.
* `resolve_staged`: the boxes of a kind are resolved.
* `mem_seen_foldl`: the widgets seen are those of the tree.
-/

namespace BBCode

/-! ## The tags of elements -/

namespace Element

/-- The opening tag of an element, as the scanner sees it. -/
def tag (e : Element) : Tag :=
  .opening e.kind.name (e.kind.marks?.map fun m => m.1.tail ++ e.value ++ m.2.dropLast)

theorem source_tag {o : Options} {e : Element} (he : e.Valid o) (ns : List Node) :
    e.tag.source = Style.source.before ns e := by
  obtain ⟨k, v⟩ := e
  have hbare : k.marks? = none → v = [] := he.bare
  show Tag.source (.opening k.name (k.marks?.map fun m => m.1.tail ++ v ++ m.2.dropLast)) =
    k.opener ++ v ++ k.tail
  cases k with
  | color | size | box | link | profile | listOf | quoteBy =>
    simp [Tag.source, Kind.marks?, Kind.opener, Kind.tail]
  | _ =>
    rw [hbare rfl]
    rfl

theorem wellSpelled_tag {o : Options} {e : Element} (he : e.Valid o) : e.tag.WellSpelled := by
  obtain ⟨k, v⟩ := e
  have hname : ∀ k ∈ Kind.all, Tag.isName k.name = true := by decide
  have hv : ']' ∉ v := fun hc => (ne_of_isPlain (he.value.plain _ hc)).2.1 rfl
  cases k with
  | color | size | box | link | profile | listOf | quoteBy =>
    exact ⟨hname _ (Kind.mem_all _), by simpa using hv⟩
  | _ => exact hname _ (Kind.mem_all _)

end Element

namespace Kind

/-- The closing tag, as the scanner sees it. -/
def closingTag (k : Kind) : Tag := .closing k.name

theorem source_closingTag (k : Kind) : k.closingTag.source = k.closer := rfl

theorem wellSpelled_closingTag (k : Kind) : k.closingTag.WellSpelled := by
  have hname : ∀ k ∈ Kind.all, Tag.isName k.name = true := by decide
  exact hname k (mem_all k)

end Kind

namespace BoxKind

/-- The elements that a kind of boxes is written as. -/
def kind : BoxKind → Kind
  | named => .box
  | spoiler => .spoilerbox

/-- The title of a box whose tag has a value. -/
def titleOf : BoxKind → Text → Text
  | named, v => v
  | spoiler, _ => spoilerTitle

theorem title?_tag_own (k : BoxKind) (v : Text) :
    k.title? (Element.mk k.kind v).tag = some (k.titleOf v) := by
  cases k with
  | named =>
    have hname : Text.sameAscii "box".toList named.tag = true := by decide
    show (if Text.sameAscii "box".toList named.tag then some ([] ++ v ++ []) else none) = some v
    rw [if_pos hname, List.nil_append, List.append_nil]
  | spoiler =>
    have hname : Text.sameAscii "spoilerbox".toList spoiler.tag = true := by decide
    show (if Text.sameAscii "spoilerbox".toList spoiler.tag then some spoilerTitle else none) = _
    rw [if_pos hname]
    rfl

theorem sameAscii_name (k : BoxKind) {j : Kind} (h : j ≠ k.kind) :
    Text.sameAscii j.name k.tag = false := by
  have hall : ∀ k ∈ [named, spoiler], ∀ j ∈ Kind.all, j ≠ k.kind →
      Text.sameAscii j.name k.tag = false := by decide
  cases k with
  | named => exact hall _ (by simp) j (Kind.mem_all j) h
  | spoiler => exact hall _ (by simp) j (Kind.mem_all j) h

theorem title?_opening {k : BoxKind} {n : Text} (h : Text.sameAscii n k.tag = false)
    (param : Option Text) : k.title? (.opening n param) = none := by
  cases k with
  | named =>
    cases param with
    | none => rfl
    | some title => simp only [title?, h, Bool.false_eq_true, if_false]
  | spoiler =>
    cases param with
    | none => simp only [title?, h, Bool.false_eq_true, if_false]
    | some title => rfl

end BoxKind

namespace Box

variable {o : Options} {k : BoxKind}

/-! ## Runs over pieces -/

/-- Handles one piece of a document cut at its tags. -/
def stepPiece (o : Options) (k : BoxKind) (x : Nest × Tally) : Piece Char Tag → Nest × Tally
  | .plain c => (x.1.write [c], x.2)
  | .found t => step o k x t

theorem step_text (x : Nest × Tally) (s : Text) : step o k x (.text s) = (x.1.write s, x.2) := by
  cases k <;> rfl

theorem foldl_joinText (s : Text) (ts : List Tag) (x : Nest × Tally) :
    (Tag.joinText s ts).foldl (step o k) x = ts.foldl (step o k) (x.1.write s, x.2) := by
  fun_cases Tag.joinText s ts with
  | case1 run ts =>
    rw [List.foldl_cons, List.foldl_cons, step_text, step_text, Nest.write_write]
  | case2 =>
    rw [List.foldl_cons, step_text]

theorem foldl_ofChars (ps : List (Piece Char Tag)) (x : Nest × Tally) :
    (Tag.ofChars ps).foldl (step o k) x = ps.foldl (stepPiece o k) x := by
  induction ps generalizing x with
  | nil => rfl
  | cons p ps ih =>
    cases p with
    | plain c => rw [Tag.ofChars, foldl_joinText, ih]; rfl
    | found t => rw [Tag.ofChars, List.foldl_cons, ih]; rfl

theorem foldl_plain (s : Text) (ps : List (Piece Char Tag)) (n : Nest) (t : Tally) :
    (s.map Piece.plain ++ ps).foldl (stepPiece o k) (n, t) =
      ps.foldl (stepPiece o k) (n.write s, t) := by
  induction s generalizing n with
  | nil =>
    rw [Nest.write_nil]
    rfl
  | cons c s ih =>
    have hw := Nest.write_write n [c] s
    rw [List.singleton_append] at hw
    rw [← hw]
    exact ih (n.write [c])

theorem foldl_skips {s : Text} (h : Skips Tag.readTag? s) (z : Text) (n : Nest) (t : Tally) :
    (Tag.grammar.pieces (s ++ z)).foldl (stepPiece o k) (n, t) =
      (Tag.grammar.pieces z).foldl (stepPiece o k) (n.write s, t) := by
  rw [Pattern.pieces_append h, foldl_plain]

theorem foldl_found {t : Tag} (h : t.WellSpelled) (z : Text) (x : Nest × Tally) :
    (Tag.grammar.pieces (t.source ++ z)).foldl (stepPiece o k) x =
      (Tag.grammar.pieces z).foldl (stepPiece o k) (step o k x t) := by
  have hread : Tag.grammar.read? (t.source ++ z) = some (t, z) := Tag.readTag?_append h z
  rw [Pattern.pieces_of_read hread]
  rfl

/-- How many boxes are open is all that matters for whether one never closes. -/
theorem length_openAfter (ts : List Tag) (i : Nat) (stack : List Nat) (x : Nest × Tally)
    (h : stack.length = x.1.frames.length) :
    (openAfter k i stack ts).length = (ts.foldl (step o k) x).1.frames.length := by
  have hwrite : ∀ (n : Nest) (s : Text), (n.write s).frames.length = n.frames.length := by
    intro n s
    obtain ⟨frames, out⟩ := n
    cases frames <;> rfl
  induction ts generalizing i stack x with
  | nil => exact h
  | cons t ts ih =>
    rw [openAfter, List.foldl_cons]
    unfold step
    cases htitle : k.title? t with
    | some title =>
      simp only [Option.isSome_some, if_true]
      exact ih (i + 1) (i :: stack) _ (congrArg (· + 1) h)
    | none =>
      simp only [Option.isSome_none, Bool.false_eq_true, if_false]
      by_cases hclose : t.closes k.tag = true
      · rw [if_pos hclose, if_pos hclose]
        refine ih (i + 1) stack.tail _ ?_
        obtain ⟨⟨frames, out⟩, u⟩ := x
        cases frames with
        | nil =>
          have h : stack.length = 0 := h
          rw [List.length_tail, h]
          rfl
        | cons f fs =>
          have hw := hwrite ⟨fs, out⟩ (Html.widget f.title f.body.trimBreaks f.id f.expanded)
          rw [List.length_tail, h]
          exact hw.symm
      · rw [if_neg hclose, if_neg hclose]
        exact ih (i + 1) stack _ (h.trans (hwrite x.1 t.source).symm)

/-! ## Tallies -/

/-- The tally behind a node, if boxes of the kind are counted. -/
def tallyNode (o : Options) (k : BoxKind) (t : Tally) : Node → Tally
  | .element e => if e.kind = k.kind then (openFrame o k (k.titleOf e.value) t).2 else t
  | .code _ => t

/-- The id of a box behind the nodes `ns`. -/
def idOf (k : BoxKind) (ns : List Node) (e : Element) : Text :=
  WidgetId.make k.tag (k.titleOf e.value) (e.number ns + 1)

theorem widget?_eq {e : Element} (h : e.kind = k.kind) (ns : List Node) :
    e.widget? ns = some (k.titleOf e.value, idOf k ns e) := by
  obtain ⟨j, v⟩ := e
  have h : j = k.kind := h
  subst h
  cases k <;> rfl

/-- The tally behind some nodes: the next box of each title gets its number in document order, and
widgets show the flags `g`. -/
structure Tallied (o : Options) (k : BoxKind) (g : Text → Bool) (ns : List Node) (t : Tally) :
    Prop where
  number : ∀ e : Element, e.kind = k.kind → (count k (k.titleOf e.value) t).1 = e.number ns + 1
  shows : t.Shows o g

theorem number_append_code (e : Element) (ns : List Node) (raw : Text) :
    e.number (ns ++ [.code raw]) = e.number ns := by
  simp [Element.number, Element.counts]

theorem number_append_element (e f : Element) (ns : List Node) :
    e.number (ns ++ [.element f]) = e.number ns + if e.counts (.element f) then 1 else 0 := by
  simp [Element.number, List.countP_append, List.countP_singleton]

/-- Opening a box raises the number of the boxes that it counts for. -/
theorem count_openFrame {e f : Element} (he : e.kind = k.kind) (hf : f.kind = k.kind) (t : Tally) :
    (count k (k.titleOf e.value) (openFrame o k (k.titleOf f.value) t).2).1 =
      (count k (k.titleOf e.value) t).1 + if e.counts (.element f) then 1 else 0 := by
  obtain ⟨i, v⟩ := e
  obtain ⟨j, w⟩ := f
  have he : i = k.kind := he
  have hf : j = k.kind := hf
  subst he hf
  cases k with
  | named =>
    have hcounts : (Element.mk BoxKind.named.kind v).counts (.element ⟨BoxKind.named.kind, w⟩) =
        decide (w = v) := by simp [Element.counts, BoxKind.kind]
    rw [hcounts, openFrame_eq]
    show (v :: w :: t.titles).count v = (v :: t.titles).count v + _
    rw [List.count_cons_self, List.count_cons_self, List.count_cons]
    by_cases hw : w = v
    · simp only [hw, decide_true, BEq.rfl, if_true]
    · simp only [beq_false_of_ne hw, decide_eq_false hw, Bool.false_eq_true, if_false]
  | spoiler =>
    have hcounts : (Element.mk BoxKind.spoiler.kind v).counts
        (.element ⟨BoxKind.spoiler.kind, w⟩) = true := by simp [Element.counts, BoxKind.kind]
    rw [hcounts, openFrame_eq]
    rfl

theorem Tallied.node {g : Text → Bool} {ns : List Node} {t : Tally} (h : Tallied o k g ns t)
    (n : Node) : Tallied o k g (ns ++ [n]) (tallyNode o k t n) := by
  cases n with
  | code raw =>
    refine ⟨fun e he => ?_, h.shows⟩
    rw [number_append_code]
    exact h.number e he
  | element f =>
    rw [tallyNode]
    by_cases hf : f.kind = k.kind
    · rw [if_pos hf]
      refine ⟨fun e he => ?_, (openFrame_shows h.shows _).2⟩
      rw [count_openFrame he hf, number_append_element, h.number e he]
      omega
    · rw [if_neg hf]
      refine ⟨fun e he => ?_, h.shows⟩
      have hcounts : e.counts (.element f) = false := by simp [Element.counts, he, hf]
      rw [number_append_element, hcounts, h.number e he]
      simp

theorem Tallied.foldl {g : Text → Bool} {ns : List Node} {t : Tally} (h : Tallied o k g ns t)
    (ms : List Node) : Tallied o k g (ns ++ ms) (ms.foldl (tallyNode o k) t) := by
  induction ms generalizing ns t with
  | nil => rwa [List.append_nil]
  | cons n ms ih =>
    have hr := ih (h.node n)
    rwa [List.append_assoc] at hr

/-- The box that an opening tag opens. -/
theorem Tallied.openFrame {g : Text → Bool} {ns : List Node} {t : Tally} (h : Tallied o k g ns t)
    {e : Element} (he : e.kind = k.kind) : (openFrame o k (k.titleOf e.value) t).1 =
      { title := k.titleOf e.value, id := idOf k ns e, expanded := g (idOf k ns e) } := by
  have hid : nextId k (k.titleOf e.value) t = idOf k ns e := by
    rw [nextId, idOf, h.number e he]
  rw [(openFrame_shows h.shows _).1, hid]

/-! ## Trees -/

section

variable {flag : Text → Bool} {done : List Kind} {items : Bool}

theorem skips_readTag?_of_ne {x : Text} (h : ∀ c ∈ x, c ≠ '[') : Skips Tag.readTag? x :=
  .of_forall_mem fun c hc s => Tag.readTag?_of_ne (h c hc) s

/-- A run over the tags of a text that stands behind some nodes, from a nest on. What is written
goes into the innermost open box and leaves the boxes around it as they are. -/
def filling (o : Options) (k : BoxKind) (t : Tally) : Pass (Nest → Nest × Tally) where
  run ns s n := (Tag.grammar.pieces s).foldl (stepPiece o k) (n, ns.foldl (tallyNode o k) t)
  onto x r n := r (n.write x)
  onto_nil r := funext fun n => congrArg r n.write_nil
  onto_append x y r := funext fun n => congrArg r (n.write_write x y).symm

theorem foldl_tallyNode_append (ns ms : List Node) (t : Tally) :
    (ns ++ ms).foldl (tallyNode o k) t = ms.foldl (tallyNode o k) (ns.foldl (tallyNode o k) t) :=
  List.foldl_append

theorem filling_skips {t : Tally} {ns ms : List Node} {x : Text}
    (hms : ∀ u, ms.foldl (tallyNode o k) u = u) (h : Skips Tag.readTag? x) :
    (filling o k t).Turns ns ms x x := by
  intro z
  funext n
  simp only [filling, foldl_skips h, foldl_tallyNode_append, hms]

/-- A tag that is no tag of boxes of the kind is written as it is. -/
theorem filling_other {t : Tally} {ns ms : List Node} {a : Tag}
    (hms : ∀ u, ms.foldl (tallyNode o k) u = u) (h : a.WellSpelled) (hopen : k.title? a = none)
    (hclose : a.closes k.tag = false) : (filling o k t).Turns ns ms a.source a.source := by
  intro z
  funext n
  simp only [filling, foldl_found h, step, hopen, hclose, foldl_tallyNode_append, hms,
    Bool.false_eq_true, if_false]

theorem filling_before {t : Tally} {e : Element} (ho : o.Plain) (he : e.Valid o)
    (hek : e.kind ≠ k.kind) (ns : List Node) :
    (filling o k t).Turns ns [.element e] ((Style.staged o flag done items).before ns e)
      ((Style.staged o flag done items).before ns e) := by
  have hms : ∀ u, [Node.element e].foldl (tallyNode o k) u = u := fun u => if_neg hek
  by_cases hdone : e.kind ∈ done
  · rw [(Style.staged_of_mem hdone ns).1]
    have hmarkup := Element.markup_before ho he flag ns
    exact filling_skips hms (skips_readTag?_of_ne fun c hc =>
      (Markup.ne_of_isMarkupChar (hmarkup.chars c hc)).1)
  · rw [(Style.staged_of_not_mem hdone ns).1, ← Element.source_tag he ns]
    exact filling_other hms (Element.wellSpelled_tag he)
      (BoxKind.title?_opening (k.sameAscii_name hek) _) rfl

theorem filling_after {t : Tally} {e : Element} (he : e.Valid o) (hek : e.kind ≠ k.kind)
    (ns ms : List Node) :
    (filling o k t).Turns ms [] ((Style.staged o flag done items).after ns e)
      ((Style.staged o flag done items).after ns e) := by
  by_cases hdone : e.kind ∈ done
  · rw [(Style.staged_of_mem hdone ns).2]
    have hmarkup := Element.markup_after he ns
    exact filling_skips (fun _ => rfl) (skips_readTag?_of_ne fun c hc =>
      (Markup.ne_of_isMarkupChar (hmarkup.chars c hc)).1)
  · rw [(Style.staged_of_not_mem hdone ns).2]
    exact filling_other (fun _ => rfl) (Kind.wellSpelled_closingTag _) (k.title?_closing _)
      (k.sameAscii_name hek)

theorem filling_item {t : Tally} (ns : List Node) :
    (filling o k t).Turns ns [] (Style.staged o flag done items).itemBefore
        (Style.staged o flag done items).itemBefore ∧
      (filling o k t).Turns ns [] (Style.staged o flag done items).itemAfter
        (Style.staged o flag done items).itemAfter := by
  cases items with
  | true =>
    have hopen : Skips Tag.readTag? "<li>".toList := skips_readTag?_of_ne (by decide)
    have hclose : Skips Tag.readTag? "</li>".toList := skips_readTag?_of_ne (by decide)
    exact ⟨filling_skips (fun _ => rfl) hopen, filling_skips (fun _ => rfl) hclose⟩
  | false =>
    have hspelled : (Tag.opening ['*'] none).WellSpelled := by
      show Tag.isName ['*'] = true
      decide
    have hname : Text.sameAscii ['*'] k.tag = false := by cases k <;> decide
    have hmarker : (filling o k t).Turns ns [] "[*]".toList "[*]".toList :=
      filling_other (fun _ => rfl) hspelled (BoxKind.title?_opening hname none) rfl
    exact ⟨hmarker, .nil _ ns⟩

/-- A box is opened, written into and closed. -/
theorem write_element {e : Element} (hek : e.kind = k.kind) {ns : List Node} {t : Tally}
    (ht : Tallied o k flag ns t) {body : Text} (hbody : Unbroken body) (n : Nest) :
    ((n.push (openFrame o k (k.titleOf e.value) t).1).write body).close e.kind.closer =
      n.write (e.before o flag ns ++ (body ++ e.after ns)) := by
  have hwidget := widget?_eq hek ns
  have hhtml : e.before o flag ns ++ (body ++ e.after ns) =
      Html.widget (k.titleOf e.value) body (idOf k ns e) (flag (idOf k ns e)) := by
    obtain ⟨j, v⟩ := e
    have hek : j = k.kind := hek
    subst hek
    rw [Widget.widget_eq]
    cases k with
    | named =>
      simp only [BoxKind.kind] at hwidget ⊢
      simp only [Element.before, Element.after, hwidget, List.append_assoc]
    | spoiler =>
      simp only [BoxKind.kind] at hwidget ⊢
      simp only [Element.before, Element.after, hwidget, List.append_assoc]
  rw [Nest.close_write_push, ht.openFrame hek, hhtml]
  simp only [List.nil_append, hbody.trimBreaks]

/-- A box is opened by its tag, filled with its body and closed. -/
theorem filling_element {t : Tally} (ht : Tallied o k flag [] t) {e : Element}
    (hek : e.kind = k.kind) (he : e.Valid o) (ns ms : List Node) {b c : Text} (hc : Unbroken c)
    (hb : (filling o k t).Turns (ns ++ [.element e]) ms b c) :
    (filling o k t).Turns ns (.element e :: ms) (Style.source.before ns e ++ (b ++ e.kind.closer))
      (e.before o flag ns ++ (c ++ e.after ns)) := by
  intro z
  funext n
  have hopen : k.title? e.tag = some (k.titleOf e.value) := by
    have htitle := k.title?_tag_own e.value
    rw [← hek] at htitle
    exact htitle
  have hclose : ∀ m u, step o k (m, u) e.kind.closingTag = (m.close e.kind.closer, u) := by
    have htitle : k.title? e.kind.closingTag = none := k.title?_closing _
    have hcloses : e.kind.closingTag.closes k.tag = true := by
      rw [hek]
      cases k <;> decide
    intro m u
    simp only [step, htitle, hcloses, if_true, Kind.source_closingTag]
  have htally : (ns ++ [Node.element e]).foldl (tallyNode o k) t =
      (openFrame o k (k.titleOf e.value) (ns.foldl (tallyNode o k) t)).2 := by
    rw [List.foldl_append, List.foldl_cons, List.foldl_nil, tallyNode, if_pos hek]
  have hns : Tallied o k flag ns (ns.foldl (tallyNode o k) t) := by
    simpa using ht.foldl ns
  have hbody := fun m => congrFun (hb (e.kind.closingTag.source ++ z)) m
  simp only [filling, htally, List.append_assoc, List.singleton_append] at hbody
  simp only [filling, List.append_assoc]
  rw [← Element.source_tag he ns, ← Kind.source_closingTag, foldl_found (Element.wellSpelled_tag he)]
  simp only [step, hopen]
  rw [hbody, foldl_found (Kind.wellSpelled_closingTag _), hclose, write_element hek hns hc]

theorem filling_restyles (hk : k.kind ∉ done) (ho : o.Plain) {t : Tally}
    (ht : Tallied o k flag [] t) (all : List Node) :
    (filling o k t).Restyles o all (Style.staged o flag done items)
      (Style.staged o flag (k.kind :: done) items) where
  text ns s hs := filling_skips (fun _ => rfl) <|
    skips_readTag?_of_ne fun c hc => (ne_of_isPlain (hs.plain c hc)).1
  code ns raw _ _ := filling_skips (fun _ => rfl) <|
    skips_readTag?_of_ne fun c hc => (Guarded.ne_of_mem_placeholder hc).1
  item ns := filling_item ns
  element ns e body he _ hbody hb := by
    by_cases hek : e.kind = k.kind
    · have hdone : e.kind ∉ done := hek ▸ hk
      have hmem : e.kind ∈ k.kind :: done := by simp [hek]
      have hub : Unbroken ((Style.staged o flag (k.kind :: done) items).write
          (ns ++ [.element e]) body) := unbroken_staged ho hbody _
      rw [(Style.staged_of_not_mem hdone ns).1, (Style.staged_of_not_mem hdone ns).2,
        (Style.staged_of_mem hmem ns).1, (Style.staged_of_mem hmem ns).2]
      exact filling_element ht hek he ns body.nodes hub hb
    · rw [Style.staged_before_cons hek, Style.staged_after_cons hek]
      exact .element (filling_before ho he hek ns) hb (filling_after he hek ns _)

theorem resolve_staged (hk : k.kind ∉ done) (ho : o.Plain) {p : Place} {d : Doc p}
    (hd : d.Valid o) {t : Tally} (ht : Tallied o k flag [] t) :
    resolve o k ((Style.staged o flag done items).write [] d, t) =
      ((Style.staged o flag (k.kind :: done) items).write [] d,
        d.nodes.foldl (tallyNode o k) t) := by
  have hfold : (Tag.scan ((Style.staged o flag done items).write [] d)).foldl (step o k) ({}, t) =
      (({} : Nest).write ((Style.staged o flag (k.kind :: done) items).write [] d),
        d.nodes.foldl (tallyNode o k) t) := by
    have hturns : (filling o k t).Turns [] d.nodes ((Style.staged o flag done items).write [] d)
        ((Style.staged o flag (k.kind :: done) items).write [] d) :=
      (filling_restyles hk ho ht d.nodes).write hd List.prefix_rfl
    have hrun := congrFun (hturns []) {}
    simp only [filling, List.append_nil, List.nil_append, List.foldl_nil, Pattern.pieces_nil] at hrun
    rw [Tag.scan_eq_ofChars, foldl_ofChars, hrun]
  generalize (Style.staged o flag done items).write [] d = s at hfold ⊢
  have hclosed : openAfter k 0 [] (Tag.scan s) = [] := by
    have hlen := length_openAfter (o := o) (k := k) (Tag.scan s) 0 [] ({}, t) rfl
    rw [hfold] at hlen
    exact List.length_eq_zero_iff.1 hlen
  have hsplit : split k (Tag.scan s) = (Tag.scan s, []) := by
    rw [split, unclosed?, hclosed]
    rfl
  simp only [resolve, hsplit, hfold]
  simp [Nest.write]

end

/-! ## The widgets of a tree -/

/-- The ids of the boxes of a kind among nodes behind the nodes `ns`. -/
def idsOf (k : BoxKind) : List Node → List Node → List Text
  | _, [] => []
  | ns, .element e :: ms =>
    (if e.kind = k.kind then [idOf k ns e] else []) ++ idsOf k (ns ++ [.element e]) ms
  | ns, .code raw :: ms => idsOf k (ns ++ [.code raw]) ms

theorem mem_seen_foldl {g : Text → Bool} {ns : List Node} {t : Tally} (h : Tallied o k g ns t)
    (ms : List Node) (id : Text) :
    id ∈ (ms.foldl (tallyNode o k) t).seen ↔ id ∈ t.seen ∨ id ∈ idsOf k ns ms := by
  induction ms generalizing ns t with
  | nil => simp [idsOf]
  | cons n ms ih =>
    rw [List.foldl_cons, ih (h.node n)]
    cases n with
    | code raw => rfl
    | element e =>
      rw [tallyNode, idsOf]
      by_cases he : e.kind = k.kind
      · have hid : nextId k (k.titleOf e.value) t = idOf k ns e := by
          rw [nextId, idOf, h.number e he]
        rw [if_pos he, if_pos he, openFrame_seen, hid]
        simp only [List.mem_cons, List.mem_append, List.not_mem_nil, or_false]
        rw [or_assoc, or_left_comm]
      · rw [if_neg he, if_neg he, List.nil_append]

theorem mem_idsFrom (ns ms : List Node) (id : Text) :
    id ∈ Doc.idsFrom ns ms ↔ id ∈ idsOf .named ns ms ∨ id ∈ idsOf .spoiler ns ms := by
  induction ms generalizing ns with
  | nil => simp [Doc.idsFrom, idsOf]
  | cons n ms ih =>
    cases n with
    | code raw => exact ih _
    | element e =>
      have hids : ∀ k : BoxKind, e.kind = k.kind → (e.widget? ns).toList.map Prod.snd = [idOf k ns e] := by
        intro k hk
        rw [widget?_eq hk]
        rfl
      simp only [Doc.idsFrom, idsOf, List.mem_append, ih]
      by_cases hbox : e.kind = BoxKind.named.kind
      · have hne : e.kind ≠ BoxKind.spoiler.kind := by
          rw [hbox]
          decide
        rw [hids .named hbox, if_pos hbox, if_neg hne]
        simp only [List.mem_singleton, List.not_mem_nil, false_or, or_assoc]
      · by_cases hspoiler : e.kind = BoxKind.spoiler.kind
        · rw [hids .spoiler hspoiler, if_neg hbox, if_pos hspoiler]
          simp only [List.mem_singleton, List.not_mem_nil, false_or]
          rw [or_left_comm]
        · have hnone : e.widget? ns = none := by
            unfold Element.widget?
            cases hk : e.kind <;> first | rfl | exact absurd hk hbox | exact absurd hk hspoiler
          rw [hnone, if_neg hbox, if_neg hspoiler]
          simp

/-! ## Both kinds of boxes -/

theorem tallied_start (m : WidgetMap) :
    Tallied o .named (m.flag o.expandByDefault) [] { widgets := m } :=
  ⟨fun e _ => by simp [count, Tally.countTitle, Tally.titleCount, Element.number],
    Tally.shows_start o m⟩

/-- A box of one kind leaves the counters of the others alone. -/
theorem tallyNode_other (t : Tally) (n : Node) :
    (tallyNode o k t n).cards = t.cards ∧
      (k = .named → (tallyNode o k t n).spoilerboxes = t.spoilerboxes) := by
  cases n with
  | code raw => exact ⟨rfl, fun _ => rfl⟩
  | element e =>
    rw [tallyNode]
    split
    · rw [openFrame_eq]
      cases k with
      | named => exact ⟨rfl, fun _ => rfl⟩
      | spoiler => exact ⟨rfl, fun h => by cases h⟩
    · exact ⟨rfl, fun _ => rfl⟩

theorem foldl_tallyNode_other (ms : List Node) (t : Tally) :
    (ms.foldl (tallyNode o k) t).cards = t.cards ∧
      (k = .named → (ms.foldl (tallyNode o k) t).spoilerboxes = t.spoilerboxes) := by
  induction ms generalizing t with
  | nil => exact ⟨rfl, fun _ => rfl⟩
  | cons n ms ih =>
    obtain ⟨hcards, hspoiler⟩ := ih (tallyNode o k t n)
    obtain ⟨hcards', hspoiler'⟩ := tallyNode_other (o := o) (k := k) t n
    exact ⟨hcards.trans hcards', fun h => (hspoiler h).trans (hspoiler' h)⟩

theorem tallied_spoiler {g : Text → Bool} {t : Tally} (hs : t.Shows o g)
    (hzero : t.spoilerboxes = 0) : Tallied o .spoiler g [] t := by
  refine ⟨fun e _ => ?_, hs⟩
  show t.spoilerboxes + 1 = e.number [] + 1
  rw [hzero]
  rfl

/-- What the boxes of both kinds count and see, from the start of a render. -/
theorem tallied_boxes (m : WidgetMap) (ms : List Node) {t u : Tally}
    (ht : t = ms.foldl (tallyNode o .named) { widgets := m })
    (hu : u = ms.foldl (tallyNode o .spoiler) t) :
    Tallied o .spoiler (m.flag o.expandByDefault) [] t ∧ u.cards = 0 ∧
      ∀ id, id ∈ u.seen ↔ id ∈ Doc.idsFrom [] ms := by
  have hnamed := tallied_start (o := o) m
  obtain ⟨hcards, hzero⟩ := foldl_tallyNode_other (o := o) (k := .named) ms { widgets := m }
  obtain ⟨hcards', -⟩ := foldl_tallyNode_other (o := o) (k := .spoiler) ms t
  have hshows := (hnamed.foldl ms).shows
  have hids := mem_seen_foldl hnamed ms
  rw [← ht] at hcards hzero hshows hids
  have hspoiler := tallied_spoiler hshows (hzero rfl)
  rw [← hu] at hcards'
  refine ⟨hspoiler, hcards'.trans hcards, fun id => ?_⟩
  rw [hu, mem_seen_foldl hspoiler, hids, mem_idsFrom]
  simp

end Box

end BBCode
