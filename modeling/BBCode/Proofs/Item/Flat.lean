import BBCode.Proofs.Doc.Items
import BBCode.Proofs.Text.Ends
import BBCode.Proofs.Unclosed.Items
import Mathlib.Data.List.Chain

/-!
# BBCode.Proofs.Item.Flat

Lists of plain items between plain texts. The document is given as blocks, and each of the three
steps of `resolve` (ordered lists, unordered lists, items) is followed over all blocks at once: a
step does to a block what it does to the block alone, because a text that is free of the words the
step looks for has them neither inside nor across its end, where only a bracket or a tag can follow.

* `map_blocks`: a step that treats each block in front of the others treats all of them.
* `trimBreaks_inside`: trimming the inside of a list trims its last item.
* `split_items`: the items of one list.
* `resolve_blocks`: a document of plain texts and flat lists becomes exactly its items.
-/

namespace BBCode.Item

/-- The words that mark lists and items. -/
def words : List Text :=
  [markerText, "[list]".toList, "[list=".toList, "[/list]".toList, "</ol>".toList, "</ul>".toList]

/-- A text that holds none of these words, in whatever letter case. -/
def Free (s : Text) : Prop := ∀ w ∈ words, ¬ w <:+: s.map foldCase

instance (s : Text) : Decidable (Free s) := inferInstanceAs (Decidable (∀ _ ∈ _, _))

/-- A part of a document: a text, or a list of items with line breaks in front of the first one. -/
inductive Block where
  | plain (s : Text)
  | list (kind : Option Text) (breaks : Text) (items : List Text)

namespace Block

def isPlain : Block → Bool
  | plain _ => true
  | list _ _ _ => false

/-- Texts and items are free of list markup, and the kind of a list is not empty and does not end
the tag. -/
def Valid : Block → Prop
  | plain s => Free s
  | list kind breaks items =>
    (∀ k ∈ kind, k ≠ [] ∧ ']' ∉ k) ∧ Breaks breaks ∧ ∀ body ∈ items, Free body

/-- Writes a block, a list the way `style` writes it, given its kind and what is in it. -/
def write (style : Option Text → Text → Text) : Block → Text
  | plain s => s
  | list kind breaks items => style kind (breaks ++ marked items)

/-- The opening tag of a list. -/
def opening : Option Text → Text
  | some k => "[list=".toList ++ k ++ [']']
  | none => "[list]".toList

/-- A list as it is in the document. -/
def spelled (kind : Option Text) (inside : Text) : Text :=
  opening kind ++ (inside ++ "[/list]".toList)

/-- A list after the step for ordered lists. -/
def ordered (kind : Option Text) (inside : Text) : Text :=
  match kind with
  | some k => orderedList k inside
  | none => spelled none inside

/-- A list after the steps for both, its items not yet split. -/
def unsplit (kind : Option Text) (inside : Text) : Text :=
  match kind with
  | some k => orderedList k inside
  | none => unorderedList inside

def source : Block → Text := write spelled

/-- The opening tag of the element for a list. -/
def start : Option Text → Text
  | some _ => "<ol>".toList
  | none => "<ol class=\"unordered\">".toList

/-- A block as it is on the page. -/
def html : Block → Text
  | plain s => s
  | list kind _ items => start kind ++ (items.flatMap element ++ "</ol>".toList)

end Block

/-- What can follow a text: the end of the document, a tag, or HTML. -/
def Follows (r : Text) : Prop := ∀ c ∈ r.head?, c = '[' ∨ c = '<'

/-- A step that treats each block as if it stood alone, in front of anything that can follow it,
treats a document so. -/
theorem map_blocks {F : Text → Text} {src dst : Block → Text} (hnil : F [] = [])
    (hstart : ∀ (b : Block) r, b.isPlain = false → Follows (src b ++ r))
    (hstep : ∀ (b : Block) r, b.Valid → (b.isPlain = true → Follows r) →
      F (src b ++ r) = dst b ++ F r)
    {bs : List Block} (hbs : ∀ b ∈ bs, b.Valid)
    (hchain : bs.IsChain fun a b => ¬ (a.isPlain = true ∧ b.isPlain = true)) :
    F (bs.flatMap src) = bs.flatMap dst := by
  induction bs with
  | nil => exact hnil
  | cons b bs ih =>
    obtain ⟨hb, hrest⟩ := List.forall_mem_cons.1 hbs
    rw [List.isChain_cons] at hchain
    rw [List.flatMap_cons, List.flatMap_cons, ← ih hrest hchain.2]
    refine hstep b _ hb fun hplain => ?_
    cases bs with
    | nil => exact fun c hc => by cases hc
    | cons d bs =>
      have hd : d.isPlain = false := by
        have hnot := hchain.1 d rfl
        simpa [hplain] using hnot
      exact hstart d _ hd

/-! ## Free texts -/

section

variable {s r w : Text}

theorem Free.of_part {t : Text} (h : Free s) (ht : t <:+: s) : Free t :=
  fun w hw hi => h w hw (hi.trans (ht.map foldCase))

theorem Free.skips (h : Free s) (hr : Follows r) (hw : w ∈ words) :
    SkipsBefore (readWord? foldCase w) r s := by
  have htail : ∀ w ∈ words, foldCase '[' ∉ w.tail ∧ foldCase '<' ∉ w.tail := by decide
  refine skipsBefore_of_not_infix (h w hw) fun c hc => ?_
  rcases hr c hc with rfl | rfl
  · exact (htail w hw).1
  · exact (htail w hw).2

theorem Free.skips_readBound? (h : Free s) (hr : Follows r) : SkipsBefore readBound? r s := by
  have hmarker : SkipsBefore (readWord? foldCase markerText) r s := h.skips hr (by simp [words])
  have hol : SkipsBefore (readWord? foldCase "</ol>".toList) r s := h.skips hr (by simp [words])
  have hul : SkipsBefore (readWord? foldCase "</ul>".toList) r s := h.skips hr (by simp [words])
  have hend : SkipsBefore (fun u => (readWord? foldCase "</ol>".toList u).or
      (readWord? foldCase "</ul>".toList u)) r s :=
    hol.imp₂ (fun u h1 h2 => by rw [h1, h2]; rfl) hul
  refine hmarker.imp₂ (fun u h1 h2 => ?_) hend
  rw [readBound?, readWord?_id_of_foldCase (by decide) h1]
  simp only [h2, Option.map_none]

theorem follows_marked {items : List Text} (hr : Follows r) : Follows (marked items ++ r) := by
  cases items with
  | nil => exact hr
  | cons q qs => rintro c ⟨⟩; exact .inl rfl

theorem skips_breaks {p : Text} (hp : Breaks p) (w : Text) :
    Skips (readWord? foldCase ('[' :: w)) p := by
  refine skips_of_head_ne fun c hc => foldCase_bracket ?_
  induction hp with
  | nil => cases hc
  | markup _ ih =>
    rcases List.mem_append.1 hc with hc | hc
    · rintro rfl
      exact absurd hc (by decide)
    · exact ih hc
  | lineFeed _ ih =>
    rcases List.mem_cons.1 hc with rfl | hc
    · decide
    · exact ih hc
  | carriageReturn _ ih =>
    rcases List.mem_cons.1 hc with rfl | hc
    · decide
    · exact ih hc

/-- No item of a list holds a tag of a list. -/
theorem skips_marked (hw : w ∈ words) (hmarker : avoids foldCase w markerText = true)
    {items : List Text} (hitems : ∀ q ∈ items, Free q) (hr : Follows r) :
    SkipsBefore (readWord? foldCase w) r (marked items) := by
  induction items with
  | nil => exact trivial
  | cons q qs ih =>
    obtain ⟨hq, hqs⟩ := List.forall_mem_cons.1 hitems
    have hitem : SkipsBefore (readWord? foldCase w) (marked qs ++ r) (markerText ++ q) :=
      ((skips_of_avoids hmarker).before _).append (hq.skips (follows_marked hr) hw)
    exact hitem.append (ih hqs)

end

/-! ## The inside of a list -/

/-- The items with the last one trimmed at its end. -/
def trimLast : List Text → List Text
  | [] => []
  | [q] => [q.trimEnd]
  | q :: q' :: qs => q :: trimLast (q' :: qs)

theorem firm_markerText : Text.Firm markerText :=
  Text.Firm.of_ends (a := ['[']) (b := [']']) (by decide) (by decide) ['*']

theorem trimEnd_marked (items : List Text) : (marked items).trimEnd = marked (trimLast items) := by
  induction items with
  | nil => rfl
  | cons q qs ih =>
    cases qs with
    | nil =>
      have h := firm_markerText.stop [] q
      simpa [marked, trimLast] using h
    | cons q' qs =>
      have hlast := firm_markerText.stop (markerText ++ q) (q' ++ marked qs)
      have hrest := firm_markerText.stop [] (q' ++ marked qs)
      have heq : marked (q' :: qs) = markerText ++ (q' ++ marked qs) :=
        List.append_assoc markerText q' _
      rw [List.nil_append, List.nil_append, ← heq, ih] at hrest
      rw [← heq, ← hrest] at hlast
      exact hlast

/-- Trimming the inside of a list drops the breaks in front of the first item and trims the last. -/
theorem trimBreaks_inside {breaks : Text} (h : Breaks breaks) (items : List Text) :
    (breaks ++ marked items).trimBreaks = marked (trimLast items) := by
  have hstart : (marked items).trimStart = marked items := by
    cases items with
    | nil => rfl
    | cons q qs =>
      have hfirst := firm_markerText.start [] (q ++ marked qs)
      simpa [marked, Text.trimStart] using hfirst
  rw [Text.trimBreaks, h.trimStart_append, hstart, trimEnd_marked]

theorem free_trimLast {items : List Text} (h : ∀ q ∈ items, Free q) :
    ∀ q ∈ trimLast items, Free q := by
  fun_induction trimLast items with
  | case1 => exact h
  | case2 q =>
    obtain ⟨p, -, hp⟩ := Text.trimEnd_append q
    have hprefix : q.trimEnd <+: q := ⟨p, hp.symm⟩
    exact List.forall_mem_cons.2 ⟨(h q (by simp)).of_part hprefix.isInfix, by simp⟩
  | case3 q q' qs ih =>
    obtain ⟨hq, hqs⟩ := List.forall_mem_cons.1 h
    exact List.forall_mem_cons.2 ⟨hq, ih hqs⟩

theorem flatMap_element_trimLast (items : List Text) :
    (trimLast items).flatMap element = items.flatMap element := by
  fun_induction trimLast items with
  | case1 => rfl
  | case2 q => simp only [List.flatMap_cons, List.flatMap_nil, element, Text.trimBreaks_trimEnd]
  | case3 q q' qs ih => rw [List.flatMap_cons, ih, ← List.flatMap_cons]

/-! ## Tags of lists -/

def orderedPair : TagPair := ⟨"list".toList, some .filled⟩

def unorderedPair : TagPair := ⟨"list".toList, none⟩

/-- The step for ordered lists. -/
def writeOrdered : Text → Text :=
  orderedPair.pattern.substitute fun x => orderedList x.param x.body

/-- The step for unordered lists. -/
def writeUnordered : Text → Text := unorderedPair.pattern.substitute fun x => unorderedList x.body

theorem substitute_list {p : TagPair} (hp : p.closer = "[/list]".toList) {f : Region → Text}
    {opening value inside : Text}
    (hopen : ∀ y, p.readOpening? (opening ++ y) = some (opening, value, y)) (r : Text)
    (hskip : SkipsBefore (readWord? foldCase "[/list]".toList) ("[/list]".toList ++ r) inside) :
    p.pattern.substitute f (opening ++ (inside ++ "[/list]".toList) ++ r) =
      f ⟨opening, value, inside, "[/list]".toList⟩ ++ p.pattern.substitute f r := by
  have hread : p.pattern.read? (opening ++ (inside ++ ("[/list]".toList ++ r))) =
      some (⟨opening, value, inside, "[/list]".toList⟩, r) := by
    show p.readPair? _ = _
    rw [TagPair.readPair?, hopen]
    simp only [hp, nearest?_of_skipsBefore hskip (by decide), Option.map_some]
  rw [List.append_assoc, List.append_assoc, Pattern.substitute_of_read hread]

theorem skips_of_opener {p : TagPair} {w x r : Text} (hp : p.opener = w)
    (h : SkipsBefore (readWord? foldCase w) r x) : SkipsBefore p.pattern.read? r x :=
  h.imp fun _ hs => TagPair.readPair?_of_opener (hp ▸ hs)

theorem opener_orderedPair : orderedPair.opener = "[list=".toList := by decide

theorem opener_unorderedPair : unorderedPair.opener = "[list]".toList := by decide

theorem readOpening?_orderedPair {k : Text} (hk : k ≠ [] ∧ ']' ∉ k) (y : Text) :
    orderedPair.readOpening? (Block.opening (some k) ++ y) =
      some (Block.opening (some k), k, y) := by
  have hvalue : Skips (readWord? id [']']) k :=
    skips_of_head_ne fun c hc heq => hk.2 (heq ▸ hc)
  have hok : ValueForm.filled.accepts k = true := by simpa [ValueForm.filled] using hk.1
  exact TagPair.readOpening?_valued (by decide) hvalue hok y

theorem readOpening?_unorderedPair (y : Text) :
    unorderedPair.readOpening? (Block.opening none ++ y) = some (Block.opening none, [], y) :=
  TagPair.readOpening?_bare (by decide) y

/-! ## The steps -/

section

variable {r : Text}

theorem skips_inside {w : Text} (hw : '[' :: w ∈ words)
    (hmarker : avoids foldCase ('[' :: w) markerText = true) {breaks : Text}
    (hbreaks : Breaks breaks) {items : List Text} (hitems : ∀ q ∈ items, Free q)
    (hr : Follows r) :
    SkipsBefore (readWord? foldCase ('[' :: w)) r (breaks ++ marked items) :=
  ((skips_breaks hbreaks w).before _).append (skips_marked hw hmarker hitems hr)

theorem follows_closer (r : Text) : Follows ("[/list]".toList ++ r) := by
  rintro c ⟨⟩
  exact .inl rfl

theorem ordered_step (b : Block) (r : Text) (hb : b.Valid) (hr : b.isPlain = true → Follows r) :
    writeOrdered (b.write Block.spelled ++ r) = b.write Block.ordered ++ writeOrdered r := by
  have hword : "[list=".toList ∈ words := by simp [words]
  cases b with
  | plain s =>
    have hskip : SkipsBefore (readWord? foldCase "[list=".toList) r s :=
      Free.skips hb (hr rfl) hword
    exact (skips_of_opener opener_orderedPair hskip).substitute_append
  | list kind breaks items =>
    obtain ⟨hkind, hbreaks, hitems⟩ := hb
    cases kind with
    | some k =>
      exact substitute_list rfl (readOpening?_orderedPair (hkind k rfl)) r
        (skips_inside (w := "/list]".toList) (by simp [words]) (by decide) hbreaks hitems
          (follows_closer r))
    | none =>
      have hinside : SkipsBefore (readWord? foldCase "[list=".toList) ("[/list]".toList ++ r)
          (breaks ++ marked items) :=
        skips_inside (w := "list=".toList) hword (by decide) hbreaks hitems (follows_closer r)
      have hopen : Skips (readWord? foldCase "[list=".toList) "[list]".toList :=
        skips_of_avoids (by decide)
      have hclose : Skips (readWord? foldCase "[list=".toList) "[/list]".toList :=
        skips_of_avoids (by decide)
      have hall : SkipsBefore (readWord? foldCase "[list=".toList) r
          (Block.spelled none (breaks ++ marked items)) :=
        (hopen.before _).append (hinside.append (hclose.before r))
      exact (skips_of_opener opener_orderedPair hall).substitute_append

theorem unordered_step (b : Block) (r : Text) (hb : b.Valid) (hr : b.isPlain = true → Follows r) :
    writeUnordered (b.write Block.ordered ++ r) = b.write Block.unsplit ++ writeUnordered r := by
  have hword : "[list]".toList ∈ words := by simp [words]
  cases b with
  | plain s =>
    have hskip : SkipsBefore (readWord? foldCase "[list]".toList) r s :=
      Free.skips hb (hr rfl) hword
    exact (skips_of_opener opener_unorderedPair hskip).substitute_append
  | list kind breaks items =>
    obtain ⟨hkind, hbreaks, hitems⟩ := hb
    cases kind with
    | some k =>
      have hinside : SkipsBefore (readWord? foldCase "[list]".toList) ("</ol>".toList ++ r)
          (breaks ++ marked items).trimBreaks := by
        rw [trimBreaks_inside hbreaks]
        refine skips_marked hword (by decide) (free_trimLast hitems) ?_
        rintro c ⟨⟩
        exact .inr rfl
      have hopen : Skips (readWord? foldCase "[list]".toList) "<ol>".toList :=
        skips_of_avoids (by decide)
      have hclose : Skips (readWord? foldCase "[list]".toList) "</ol>".toList :=
        skips_of_avoids (by decide)
      have hall : SkipsBefore (readWord? foldCase "[list]".toList) r
          (orderedList k (breaks ++ marked items)) := by
        rw [orderedList, Rule.between, List.append_assoc]
        exact (hopen.before _).append (hinside.append (hclose.before r))
      exact (skips_of_opener opener_unorderedPair hall).substitute_append
    | none =>
      exact substitute_list rfl readOpening?_unorderedPair r
        (skips_inside (w := "/list]".toList) (by simp [words]) (by decide) hbreaks hitems
          (follows_closer r))

/-- The items of one list, in front of a bound. -/
theorem split_items {items : List Text} (hitems : ∀ q ∈ items, Free q) (hr : Follows r)
    (hbound : StartsBound r) : split (marked items ++ r) = items.flatMap element ++ split r := by
  induction items with
  | nil => rfl
  | cons q qs ih =>
    obtain ⟨hq, hqs⟩ := List.forall_mem_cons.1 hitems
    have hnext : StartsBound (marked qs ++ r) := by
      cases qs with
      | nil => exact hbound
      | cons q' qs =>
        refine ⟨.marker, pattern.pieces (q' ++ marked qs ++ r), ?_⟩
        have hmarker := pieces_marker (q' ++ marked qs ++ r)
        simpa [marked] using hmarker
    obtain ⟨b, ps, hps⟩ := hnext
    have hskip : SkipsBefore pattern.read? (marked qs ++ r) q :=
      hq.skips_readBound? (follows_marked hr)
    have hup : upToBound? (pattern.pieces (q ++ (marked qs ++ r))) =
        some (q, pattern.pieces (marked qs ++ r)) := by
      rw [hskip.pieces_append, upToBound?_plain, hps]
      simp [upToBound?]
    have hsource : marked (q :: qs) ++ r = markerText ++ (q ++ (marked qs ++ r)) := by
      simp [marked]
    rw [hsource, split, pieces_marker, write_marker_of_some hup, List.flatMap_cons,
      List.append_assoc]
    exact congrArg (element q ++ ·) (ih hqs)

theorem split_step (b : Block) (r : Text) (hb : b.Valid) (hr : b.isPlain = true → Follows r) :
    split (b.write Block.unsplit ++ r) = b.html ++ split r := by
  cases b with
  | plain s =>
    have hskip : SkipsBefore pattern.read? r s := Free.skips_readBound? hb (hr rfl)
    show write (pattern.pieces (s ++ r)) = s ++ write (pattern.pieces r)
    rw [hskip.pieces_append, write_plain]
  | list kind breaks items =>
    obtain ⟨hkind, hbreaks, hitems⟩ := hb
    have hstart : Skips readBound? (Block.start kind) := by
      cases kind with
      | some k => exact skips_listStart.1
      | none => exact skips_listStart.2
    have hlist : (Block.list kind breaks items).write Block.unsplit ++ r =
        Block.start kind ++ (marked (trimLast items) ++ ("</ol>".toList ++ r)) := by
      rw [← trimBreaks_inside hbreaks, ← List.append_assoc, ← List.append_assoc]
      cases kind <;> rfl
    have hend : Follows ("</ol>".toList ++ r) := by
      rintro c ⟨⟩
      exact .inr rfl
    have hitems := split_items (free_trimLast hitems) hend ⟨_, _, pieces_listEnd r⟩
    have hclose : split ("</ol>".toList ++ r) = "</ol>".toList ++ split r := by
      rw [split, pieces_listEnd, write]
      rfl
    rw [hlist, split, write_skips hstart, ← split, hitems, hclose, flatMap_element_trimLast,
      Block.html, List.append_assoc, List.append_assoc]

end

theorem follows_write {style : Option Text → Text → Text}
    (h : ∀ kind inside r, Follows (style kind inside ++ r)) (b : Block) (r : Text)
    (hb : b.isPlain = false) : Follows (b.write style ++ r) := by
  cases b with
  | plain s => cases hb
  | list kind breaks items => exact h kind _ r

theorem follows_spelled (kind : Option Text) (inside r : Text) :
    Follows (Block.spelled kind inside ++ r) := by
  cases kind <;> (rintro c ⟨⟩; exact .inl rfl)

theorem follows_ordered (kind : Option Text) (inside r : Text) :
    Follows (Block.ordered kind inside ++ r) := by
  cases kind with
  | some k => rintro c ⟨⟩; exact .inr rfl
  | none => exact follows_spelled none inside r

theorem follows_unsplit (kind : Option Text) (inside r : Text) :
    Follows (Block.unsplit kind inside ++ r) := by
  cases kind <;> (rintro c ⟨⟩; exact .inr rfl)

/-- A document of plain texts and flat lists, no two texts next to each other, becomes the texts as
they are, and for each list an element around exactly its items, in their order, each with the line
breaks at its ends removed. -/
theorem resolve_blocks (o : Options) (t : Tally) (bs : List Block) (hbs : ∀ b ∈ bs, b.Valid)
    (hchain : bs.IsChain fun a b => ¬ (a.isPlain = true ∧ b.isPlain = true)) :
    resolve o (bs.flatMap Block.source, t) = (bs.flatMap Block.html, t) := by
  have hordered : writeOrdered (bs.flatMap Block.source) = bs.flatMap (Block.write Block.ordered) :=
    map_blocks (Pattern.substitute_nil _ _) (follows_write follows_spelled) ordered_step hbs hchain
  have hunordered : writeUnordered (bs.flatMap (Block.write Block.ordered)) =
      bs.flatMap (Block.write Block.unsplit) :=
    map_blocks (Pattern.substitute_nil _ _) (follows_write follows_ordered) unordered_step hbs
      hchain
  have hsplit : split (bs.flatMap (Block.write Block.unsplit)) = bs.flatMap Block.html :=
    map_blocks (by rw [split, Pattern.pieces_nil, Item.write]) (follows_write follows_unsplit)
      split_step hbs hchain
  have hrules : Rule.applyAll o rules (bs.flatMap Block.source, t) =
      (bs.flatMap (Block.write Block.unsplit), t) :=
    congrArg (·, t) ((congrArg _ hordered).trans hunordered)
  rw [resolve, hrules, hsplit]

/-- Two lists with text before, between and behind them; the second one is empty. -/
def twoLists : List Block :=
  [.plain "see\n".toList, .list none "\n".toList ["a\n".toList, "[b]<br>".toList],
    .plain "<or> [".toList, .list (some "1".toList) "<br>".toList [], .plain "*]".toList]

theorem resolve_twoLists :
    (∀ b ∈ twoLists, b.Valid) ∧
      (twoLists.IsChain fun a b => ¬ (a.isPlain = true ∧ b.isPlain = true)) ∧
      twoLists.flatMap Block.source =
        "see\n[list]\n[*]a\n[*][b]<br>[/list]<or> [[list=1]<br>[/list]*]".toList ∧
      resolve {} (twoLists.flatMap Block.source, { widgets := .empty }) =
        ("see\n<ol class=\"unordered\"><li>a</li><li>[b]</li></ol><or> [<ol></ol>*]".toList,
          { widgets := .empty }) := by
  have hvalid : ∀ b ∈ twoLists, b.Valid := by
    have hfree : ∀ s ∈ ["see\n".toList, "a\n".toList, "[b]<br>".toList, "<or> [".toList,
        "*]".toList], Free s := by decide +kernel
    simp only [twoLists, List.forall_mem_cons]
    refine ⟨hfree _ (by simp), ⟨nofun, .lineFeed .nil, fun q hq => hfree q ?_⟩, hfree _ (by simp),
      ⟨?_, .markup .nil, nofun⟩, hfree _ (by simp), nofun⟩
    · simp only [List.mem_cons, List.not_mem_nil, or_false] at hq ⊢
      exact .inr (hq.elim .inl fun hq => .inr (.inl hq))
    · rintro k ⟨⟩
      decide
  have hchain : twoLists.IsChain fun a b => ¬ (a.isPlain = true ∧ b.isPlain = true) := by
    simp [twoLists, Block.isPlain]
  have hhtml : twoLists.flatMap Block.html =
      "see\n<ol class=\"unordered\"><li>a</li><li>[b]</li></ol><or> [<ol></ol>*]".toList := by
    decide +kernel
  refine ⟨hvalid, hchain, by decide +kernel, ?_⟩
  rw [resolve_blocks {} _ twoLists hvalid hchain, hhtml]

end BBCode.Item
