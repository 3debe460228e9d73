import BBCode.Proofs.Doc.Frames

/-!
# BBCode.Proofs.Doc.Stage

Trees in the middle of a render. Code regions are behind their placeholders, the elements of some
kinds are HTML already, all others still stand between their tags. Whichever kinds these are, tags
are found where they are written and nowhere else, and no line break is found at all.

* `skips_staged`: what is read in no tag of a tree is read nowhere in it.
* `unbroken_staged`: trimming line breaks changes nothing.
-/

namespace BBCode

/-! ## Texts without line breaks -/

/-- A text in which no line ends. -/
structure Unbroken (s : Text) : Prop where
  chars : ∀ c ∈ s, isNewline c = false
  word : Skips (readWord? id lineBreak) s

namespace Unbroken

variable {s t : Text}

theorem nil : Unbroken [] := ⟨by simp, trivial⟩

theorem append (hs : Unbroken s) (ht : Unbroken t) : Unbroken (s ++ t) := by
  refine ⟨fun c hc => ?_, hs.word.append ht.word⟩
  rcases List.mem_append.1 hc with hc | hc
  · exact hs.chars c hc
  · exact ht.chars c hc

theorem of_not_mem (hlt : '<' ∉ s) (h : ∀ c ∈ s, isNewline c = false) : Unbroken s :=
  by
  refine ⟨h, skips_of_head_ne fun c hc heq => hlt ?_⟩
  have hc' : c = '<' := heq
  rwa [← hc']

theorem of_markup (h : Markup s) : Unbroken s := by
  refine ⟨fun c hc => ?_, h.unbroken⟩
  obtain ⟨-, -, h1, h2, -⟩ := Markup.ne_of_isMarkupChar (h.chars c hc)
  simp [isNewline, h1, h2]

theorem nearest? (h : Unbroken s) : nearest? id lineBreak s = none :=
  nearest?_eq_none_of_skips h.word

theorem trimBreaks (h : Unbroken s) : s.trimBreaks = s := by
  have hword : ∀ b r, s ≠ b ++ (lineBreak ++ r) := by
    intro b r heq
    have hread : BBCode.nearest? id lineBreak (lineBreak ++ r) ≠ none := by
      rw [nearest?_of_read (readWord?_self_append (List.map_id _) r)]
      simp
    exact nearest?_append_ne_none hread (heq ▸ h.nearest?)
  have hchar : ∀ c b r, isNewline c = true → s ≠ b ++ (c :: r) := by
    intro c b r hc heq
    have hmem := h.chars c (by simp [heq])
    rw [hc] at hmem
    cases hmem
  have hstart : s.trimStart = s := by
    rw [Text.trimStart_eq, Text.readBreak?_eq_none (hword []) (fun r => hchar '\n' [] r rfl)
      fun r => hchar '\r' [] r rfl]
  -- a break at the end, read backwards, is one that was there
  have hrev : ∀ w r, s.reverse = w ++ r → s = r.reverse ++ (w.reverse ++ []) := by
    intro w r heq
    rw [List.append_nil, ← List.reverse_append, ← heq, List.reverse_reverse]
  have hend : Text.trimReversed s.reverse = s.reverse := by
    rw [Text.trimReversed_eq, Text.readBreak?_eq_none]
    · exact fun r heq => hword r.reverse [] (by simpa using hrev _ _ heq)
    · exact fun r heq => hchar '\n' r.reverse [] rfl (by simpa using hrev ['\n'] r heq)
    · exact fun r heq => hchar '\r' r.reverse [] rfl (by simpa using hrev ['\r'] r heq)
  rw [Text.trimBreaks, hstart, Text.trimEnd, hend, List.reverse_reverse]

end Unbroken

/-! ## Placeholders -/

namespace Guarded

theorem ne_of_mem_placeholder {k : Nat} {c : Char} (h : c ∈ placeholder k) :
    c ≠ '[' ∧ c ≠ '<' ∧ isNewline c = false := by
  have hend : ∀ c ∈ [placeholderStart, 'C', 'O', 'D', 'E', placeholderStop],
      c ≠ '[' ∧ c ≠ '<' ∧ isNewline c = false := by decide
  rw [placeholder_eq, label] at h
  simp only [List.mem_cons, List.mem_append, List.not_mem_nil, or_false] at h
  rcases h with rfl | (h | h) | rfl
  · exact hend _ (by simp)
  · exact hend c (List.mem_cons_of_mem _ (List.mem_append_left [placeholderStop] h))
  · obtain ⟨h1, -, h2, -, h3, h4, -⟩ := ne_of_isPlain (isPlain_of_isDigit (isDigit_of_mem_decimal h))
    exact ⟨h1, h2, by simp [isNewline, h3, h4]⟩
  · exact hend _ (by simp)

end Guarded

/-! ## Trees on the way -/

/-- The contents of the code regions among nodes. -/
def codes (ns : List Node) : List Text :=
  ns.filterMap fun
    | .element _ => none
    | .code raw => some raw

/-- How a tree is written when the elements of the kinds in `done` are HTML, and items if `items`
says so. -/
def Style.staged (o : Options) (flag : Text → Bool) (done : List Kind) (items : Bool) : Style where
  before ns e := if e.kind ∈ done then e.before o flag ns else Style.source.before ns e
  after ns e := if e.kind ∈ done then e.after ns else Style.source.after ns e
  itemBefore := if items then "<li>".toList else "[*]".toList
  itemAfter := if items then "</li>".toList else []
  code ns _ := Guarded.placeholder (codes ns).length

section

variable {o : Options} {flag : Text → Bool} {done : List Kind} {items : Bool} {p : Place} {d : Doc p}

theorem Style.staged_of_mem {e : Element} (h : e.kind ∈ done) (ns : List Node) :
    (Style.staged o flag done items).before ns e = e.before o flag ns ∧
      (Style.staged o flag done items).after ns e = e.after ns :=
  ⟨if_pos h, if_pos h⟩

theorem Style.staged_of_not_mem {e : Element} (h : e.kind ∉ done) (ns : List Node) :
    (Style.staged o flag done items).before ns e = Style.source.before ns e ∧
      (Style.staged o flag done items).after ns e = Style.source.after ns e :=
  ⟨if_neg h, if_neg h⟩

namespace Element

variable {e : Element} {w : Text}

theorem skips_staged_before (ho : o.Plain) (he : e.Valid o)
    (h : clashes foldCase ('[' :: w) e.kind.opener = true) (ns : List Node) :
    Skips (readWord? foldCase ('[' :: w)) ((Style.staged o flag done items).before ns e) := by
  by_cases hdone : e.kind ∈ done
  · rw [(Style.staged_of_mem hdone ns).1]
    exact (markup_before ho he flag ns).skips w
  · rw [(Style.staged_of_not_mem hdone ns).1]
    exact skips_source_before he h ns

theorem skips_staged_after (he : e.Valid o)
    (h : clashes foldCase ('[' :: w) e.kind.closer = true) (ns : List Node) :
    Skips (readWord? foldCase ('[' :: w)) ((Style.staged o flag done items).after ns e) := by
  by_cases hdone : e.kind ∈ done
  · rw [(Style.staged_of_mem hdone ns).2]
    exact (markup_after he ns).skips w
  · rw [(Style.staged_of_not_mem hdone ns).2]
    exact Kind.skips_closer h

theorem ne_of_mem_source_before (he : e.Valid o) (ns : List Node) {c : Char}
    (hc : c ∈ Style.source.before ns e) : c ≠ '<' ∧ isNewline c = false := by
  have htag : ∀ k ∈ Kind.all, ∀ c ∈ k.opener ++ k.tail, c ≠ '<' ∧ isNewline c = false := by
    decide
  have hc : c ∈ (e.kind.opener ++ e.value) ++ e.kind.tail := hc
  simp only [List.mem_append] at hc
  rcases hc with (hc | hc) | hc
  · exact htag _ (Kind.mem_all _) c (List.mem_append_left _ hc)
  · obtain ⟨-, -, h1, -, h2, h3, -⟩ := ne_of_isPlain (he.value.plain c hc)
    exact ⟨h1, by simp [isNewline, h2, h3]⟩
  · exact htag _ (Kind.mem_all _) c (List.mem_append_right _ hc)

theorem ne_of_mem_source_after (ns : List Node) {c : Char} (hc : c ∈ Style.source.after ns e) :
    c ≠ '<' ∧ isNewline c = false := by
  have htag : ∀ k ∈ Kind.all, ∀ c ∈ k.closer, c ≠ '<' ∧ isNewline c = false := by
    decide
  exact htag e.kind (Kind.mem_all _) c hc

theorem unbroken_staged_before (ho : o.Plain) (he : e.Valid o) (ns : List Node) :
    Unbroken ((Style.staged o flag done items).before ns e) := by
  by_cases hdone : e.kind ∈ done
  · rw [(Style.staged_of_mem hdone ns).1]
    exact .of_markup (markup_before ho he flag ns)
  · rw [(Style.staged_of_not_mem hdone ns).1]
    exact .of_not_mem (fun hc => (ne_of_mem_source_before he ns hc).1 rfl) fun c hc =>
      (ne_of_mem_source_before he ns hc).2

theorem unbroken_staged_after (he : e.Valid o) (ns : List Node) :
    Unbroken ((Style.staged o flag done items).after ns e) := by
  by_cases hdone : e.kind ∈ done
  · rw [(Style.staged_of_mem hdone ns).2]
    exact .of_markup (markup_after he ns)
  · rw [(Style.staged_of_not_mem hdone ns).2]
    exact .of_not_mem (fun hc => (ne_of_mem_source_after ns hc).1 rfl) fun c hc =>
      (ne_of_mem_source_after ns hc).2

end Element

theorem PlainText.skips {s w : Text} (h : PlainText s) : Skips (readWord? foldCase ('[' :: w)) s :=
  skips_of_head_ne fun c hc => foldCase_bracket (ne_of_isPlain (h.plain c hc)).1

theorem PlainText.unbroken {s : Text} (h : PlainText s) : Unbroken s := by
  refine .of_not_mem (fun hc => (ne_of_isPlain (h.plain _ hc)).2.2.1 rfl) fun c hc => ?_
  obtain ⟨-, -, -, -, h1, h2, -⟩ := ne_of_isPlain (h.plain c hc)
  simp [isNewline, h1, h2]

theorem skips_itemFrame {w : Text} (h : clashes foldCase ('[' :: w) "[*]".toList = true) :
    Skips (readWord? foldCase ('[' :: w)) (Style.staged o flag done items).itemBefore ∧
      Skips (readWord? foldCase ('[' :: w)) (Style.staged o flag done items).itemAfter := by
  cases items with
  | true =>
    have hli : Markup "<li>".toList := .of_check (by decide)
    have hend : Markup "</li>".toList := .of_check (by decide)
    exact ⟨hli.skips w, hend.skips w⟩
  | false =>
    have hmarker := skips_tag (x := "*]".toList) (y := []) h (by decide)
    exact ⟨hmarker, trivial⟩

theorem unbroken_itemFrame : Unbroken (Style.staged o flag done items).itemBefore ∧
    Unbroken (Style.staged o flag done items).itemAfter := by
  cases items with
  | true =>
    have hli : Markup "<li>".toList := .of_check (by decide)
    have hend : Markup "</li>".toList := .of_check (by decide)
    exact ⟨.of_markup hli, .of_markup hend⟩
  | false =>
    have hmarker : Unbroken "[*]".toList := .of_not_mem (by decide) (by decide)
    exact ⟨hmarker, .nil⟩

/-- A word that is read in no tag of a tree is read nowhere in it. -/
theorem skips_staged {w : Text} (ho : o.Plain) (hd : d.Valid o)
    (h : ∀ e, .element e ∈ d.nodes → clashes foldCase ('[' :: w) e.kind.opener = true ∧
      clashes foldCase ('[' :: w) e.kind.closer = true)
    (hitem : d.HasItems → clashes foldCase ('[' :: w) "[*]".toList = true) (ns : List Node) :
    Skips (readWord? foldCase ('[' :: w)) ((Style.staged o flag done items).write ns d) := by
  refine Style.write_closed trivial Skips.append (fun s hs => hs.skips) (fun ns raw _ => ?_)
    (fun ns e he hv => ?_) (fun hi => skips_itemFrame (hitem hi)) hd ns
  · exact skips_of_head_ne fun c hc => foldCase_bracket (Guarded.ne_of_mem_placeholder hc).1
  · obtain ⟨hopen, hclose⟩ := h e he
    exact ⟨Element.skips_staged_before ho hv hopen ns, Element.skips_staged_after hv hclose ns⟩

theorem unbroken_staged (ho : o.Plain) (hd : d.Valid o) (ns : List Node) :
    Unbroken ((Style.staged o flag done items).write ns d) := by
  refine Style.write_closed .nil Unbroken.append (fun s hs => hs.unbroken) (fun ns raw _ => ?_)
    (fun ns e he hv => ?_) (fun _ => unbroken_itemFrame) hd ns
  · exact .of_not_mem (fun hc => (Guarded.ne_of_mem_placeholder hc).2.1 rfl) fun c hc =>
      (Guarded.ne_of_mem_placeholder hc).2.2
  · exact ⟨Element.unbroken_staged_before ho hv ns, Element.unbroken_staged_after hv ns⟩

end

end BBCode
