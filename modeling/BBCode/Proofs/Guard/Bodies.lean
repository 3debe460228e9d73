import BBCode.Document
import BBCode.Proofs.Guard.Restore
import BBCode.Proofs.Text.Trim

/-!
# BBCode.Proofs.Guard.Bodies

Where the contents of code regions show on a page. A page is a fixed text with places for code
blocks; what stands in a code region is seen in its places and nowhere else.

* `dropBreaks_fill`: dropping the line breaks after code blocks changes only the fixed text.
* `foldl_restoreOne_of_perm`: the order in which regions are put back does not matter.
* `restore_eq_fill`: putting code regions back fills the places of one such page.
-/

namespace BBCode

/-- A page with places for code blocks: the text in front of the first, and for each place the
index of its region and the text behind it. -/
structure CodePage where
  first : Text
  rest : List (Nat × Text)
  deriving DecidableEq, Repr

namespace CodePage

/-- The page with `shown k` in every place of region `k`. -/
def fill (shown : Nat → Text) (p : CodePage) : Text :=
  p.first ++ p.rest.flatMap fun x => Rule.between "<pre>" "</pre>" (shown x.1) ++ x.2

/-- The page that some pieces make when the occurrences are code blocks. -/
def ofPieces : List (Piece Char Nat) → CodePage
  | [] => ⟨[], []⟩
  | .plain c :: ps => let p := ofPieces ps; ⟨c :: p.first, p.rest⟩
  | .found k :: ps => let p := ofPieces ps; ⟨[], (k, p.first) :: p.rest⟩

theorem fill_ofPieces (shown : Nat → Text) (ps : List (Piece Char Nat)) :
    (ofPieces ps).fill shown =
      ps.flatMap (Piece.fill fun k => Rule.between "<pre>" "</pre>" (shown k)) := by
  induction ps with
  | nil => rfl
  | cons p ps ih =>
    rw [List.flatMap_cons, ← ih]
    cases p with
    | plain c => simp [ofPieces, fill, Piece.fill]
    | found k => simp [ofPieces, fill, Piece.fill]

theorem index_mem_ofPieces {ps : List (Piece Char Nat)} {x : Nat × Text}
    (h : x ∈ (ofPieces ps).rest) : .found x.1 ∈ ps := by
  induction ps with
  | nil => simp [ofPieces] at h
  | cons p ps ih =>
    cases p with
    | plain c => exact List.mem_cons_of_mem _ (ih h)
    | found k =>
      rcases List.mem_cons.1 h with rfl | h
      · exact List.mem_cons_self
      · exact List.mem_cons_of_mem _ (ih h)

end CodePage

namespace Guarded

/-- A text without the line breaks that follow code blocks. -/
def dropBreaks (s : Text) : Text :=
  (Rule.tagBreak "</pre>".toList).substitute (fun _ => "</pre>".toList) s

theorem restore_eq (blocks : List Text) (html : Text) :
    restore blocks html =
      if blocks.isEmpty then html else dropBreaks (blocks.zipIdx.foldl restoreOne html) := rfl

/-! ## Dropping breaks around code blocks -/

theorem readTagBreak?_cons {tag : Text} {p c : Char} {s : Text} (h : c ≠ p) :
    Rule.readTagBreak? (p :: tag) (c :: s) = none := by
  rw [Rule.readTagBreak?, readWord?_cons_of_ne (f := id) h]

theorem skips_readTagBreak? {tag x : Text} (h : Skips (readWord? id tag) x) :
    Skips (Rule.readTagBreak? tag) x :=
  h.imp fun s hs => by rw [Rule.readTagBreak?, hs]

/-- A closing tag with the break after it does not reach into a text that starts another tag. -/
theorem readTagBreak?_append {tag y : Text} (ht : Stops id y tag) (hb : Stops id y lineBreak)
    (hy : ∃ c s, y = c :: s ∧ isBlank c = false) (x r : Text) :
    Rule.readTagBreak? tag (x ++ (y ++ r)) =
      (Rule.readTagBreak? tag x).map fun q => (q.1, q.2 ++ (y ++ r)) := by
  obtain ⟨c, s, rfl, hc⟩ := hy
  have hdrop : ∀ z : Text, (z ++ (c :: s ++ r)).dropWhile isBlank =
      z.dropWhile isBlank ++ (c :: s ++ r) := by
    intro z
    rw [List.dropWhile_append]
    split
    · rename_i hz
      rw [List.isEmpty_iff.1 hz, List.cons_append, List.dropWhile_cons_of_neg (by simp [hc])]
      rfl
    · rfl
  have htake : ∀ z : Text, (z ++ (c :: s ++ r)).takeWhile isBlank = z.takeWhile isBlank := by
    intro z
    rw [List.takeWhile_append, List.cons_append, List.takeWhile_cons_of_neg (by simp [hc])]
    split
    · rename_i hz
      rw [List.append_nil]
      exact ((List.takeWhile_sublist _).eq_of_length hz).symm
    · rfl
  simp only [Rule.readTagBreak?, readWord?_append_of_stops ht]
  cases readWord? id tag x with
  | none => rfl
  | some q =>
    simp only [Option.map_some, hdrop, htake, readWord?_append_of_stops hb, Option.map_map]
    cases readWord? id lineBreak (q.2.dropWhile isBlank) <;> rfl

theorem dropBreaks_append_of_stops {y : Text} (ht : Stops id y "</pre>".toList)
    (hb : Stops id y lineBreak) (hy : ∃ c s, y = c :: s ∧ isBlank c = false) (x r : Text) :
    dropBreaks (x ++ (y ++ r)) = dropBreaks x ++ dropBreaks (y ++ r) := by
  induction hlen : x.length using Nat.strongRecOn generalizing x with
  | ind len ih =>
    subst hlen
    cases x with
    | nil => simp [dropBreaks]
    | cons c x =>
      have happ := readTagBreak?_append ht hb hy (c :: x) r
      cases hr : (Rule.tagBreak "</pre>".toList).read? (c :: x) with
      | none =>
        rw [show Rule.readTagBreak? "</pre>".toList (c :: x) = none from hr] at happ
        have hr' : (Rule.tagBreak "</pre>".toList).read? (c :: (x ++ (y ++ r))) = none := happ
        have hx := ih x.length (Nat.lt_succ_self _) x rfl
        rw [dropBreaks, List.cons_append, Pattern.substitute_of_not_read hr', dropBreaks,
          Pattern.substitute_of_not_read hr, List.cons_append]
        exact congrArg (c :: ·) hx
      | some q =>
        rw [show Rule.readTagBreak? "</pre>".toList (c :: x) = some (q.1, q.2) from hr] at happ
        have hr' : (Rule.tagBreak "</pre>".toList).read? (c :: x ++ (y ++ r)) =
          some (q.1, q.2 ++ (y ++ r)) := happ
        have hx := ih q.2.length (Rule.readTagBreak?_length hr) q.2 rfl
        rw [dropBreaks, Pattern.substitute_of_read hr', dropBreaks, Pattern.substitute_of_read hr,
          List.append_assoc]
        exact congrArg ("</pre>".toList ++ ·) hx

theorem dropBreaks_append_pre (x r : Text) :
    dropBreaks (x ++ ("<pre>".toList ++ r)) = dropBreaks x ++ dropBreaks ("<pre>".toList ++ r) :=
  dropBreaks_append_of_stops (stops_of_clashesAll (by decide)) (stops_of_clashesAll (by decide))
    ⟨'<', "pre>".toList, rfl, by decide⟩ x r

/-- The text without the line break that it starts with, and without the blanks before that. -/
def skipBreak (s : Text) : Text :=
  match readWord? id lineBreak (s.dropWhile isBlank) with
  | some (_, r) => r
  | none => s

/-- A closing tag stays whatever follows it, and the line break after it goes. -/
theorem dropBreaks_closing (s : Text) :
    dropBreaks ("</pre>".toList ++ s) = "</pre>".toList ++ dropBreaks (skipBreak s) := by
  have hread : Rule.readTagBreak? "</pre>".toList ("</pre>".toList ++ s) =
      (readWord? id lineBreak (s.dropWhile isBlank)).map fun x =>
        ("</pre>".toList ++ s.takeWhile isBlank ++ x.1, x.2) := rfl
  unfold skipBreak
  cases hb : readWord? id lineBreak (s.dropWhile isBlank) with
  | some x =>
    rw [hb, Option.map_some] at hread
    exact Pattern.substitute_of_read (p := Rule.tagBreak "</pre>".toList) hread
  | none =>
    have hskip : Skips (Rule.tagBreak "</pre>".toList).read? "/pre>".toList :=
      skips_readTagBreak? (skips_of_avoids (by decide))
    rw [hb] at hread
    have hread : (Rule.tagBreak "</pre>".toList).read? ('<' :: ("/pre>".toList ++ s)) = none := hread
    show dropBreaks ('<' :: ("/pre>".toList ++ s)) = _
    rw [dropBreaks, Pattern.substitute_of_not_read hread, Pattern.substitute_append hskip]
    rfl

theorem dropBreaks_block {body : Text} (h : '<' ∉ body) (r : Text) :
    dropBreaks ("<pre>".toList ++ (body ++ r)) = "<pre>".toList ++ (body ++ dropBreaks r) := by
  have hopen : Skips (Rule.tagBreak "</pre>".toList).read? "<pre>".toList :=
    skips_readTagBreak? (skips_of_avoids (by decide))
  have hbody : Skips (Rule.readTagBreak? ('<' :: "/pre>".toList)) body :=
    .of_forall_mem fun c hc s => readTagBreak?_cons fun hlt => h (hlt ▸ hc)
  have hbody' : Skips (Rule.tagBreak "</pre>".toList).read? body := hbody
  rw [dropBreaks, Pattern.substitute_append hopen, Pattern.substitute_append hbody']
  rfl

theorem dropBreaks_rest {shown : Nat → Text} (h : ∀ k, '<' ∉ shown k) (rest : List (Nat × Text))
    (x : Text) :
    dropBreaks (x ++ rest.flatMap fun y => Rule.between "<pre>" "</pre>" (shown y.1) ++ y.2) =
      dropBreaks x ++ (rest.map fun y => (y.1, (dropBreaks ("</pre>".toList ++ y.2)).drop 6)).flatMap
        fun y => Rule.between "<pre>" "</pre>" (shown y.1) ++ y.2 := by
  induction rest generalizing x with
  | nil => simp [dropBreaks]
  | cons y rest ih =>
    have hs := dropBreaks_closing y.2
    have hrest := ih ("</pre>".toList ++ y.2)
    rw [hs] at hrest
    rw [List.flatMap_cons, List.map_cons, List.flatMap_cons, hs]
    simp only [Rule.between, List.append_assoc] at hrest ⊢
    rw [dropBreaks_append_pre, dropBreaks_block (h y.1), hrest]
    rfl

end Guarded

namespace CodePage

/-- The page without the line breaks that follow its places. -/
def dropBreaks (p : CodePage) : CodePage where
  first := Guarded.dropBreaks p.first
  rest := p.rest.map fun x => (x.1, (Guarded.dropBreaks ("</pre>".toList ++ x.2)).drop 6)

theorem dropBreaks_fill {shown : Nat → Text} (h : ∀ k, '<' ∉ shown k) (p : CodePage) :
    Guarded.dropBreaks (p.fill shown) = p.dropBreaks.fill shown :=
  Guarded.dropBreaks_rest h p.rest p.first

end CodePage

namespace Guarded

/-! ## Putting code regions back -/

/-- What shows of region `k`: its contents escaped, without the line ends around them. -/
def shown (blocks : List Text) (k : Nat) : Text := Text.escape (Text.trimNewlines (blocks.getD k []))

theorem codeBlock_eq (blocks : List Text) (k : Nat) :
    codeBlock (blocks.getD k []) = Rule.between "<pre>" "</pre>" (shown blocks k) := by
  rw [codeBlock, Text.trimBreaks_escape, shown]

theorem Unreserved.escape {s : Text} (h : Unreserved s) : Unreserved s.escape := by
  intro d hd
  obtain ⟨c, hc, hd⟩ := List.mem_flatMap.1 hd
  have hc := h c hc
  rcases Text.escapeChar_cases c with he | he | he | ⟨he, -, -⟩ <;> rw [he] at hd
  · exact (by decide : Unreserved "&amp;".toList) d hd
  · exact (by decide : Unreserved "&lt;".toList) d hd
  · exact (by decide : Unreserved "&gt;".toList) d hd
  · rwa [List.mem_singleton.1 hd]

theorem Unreserved.trimNewlines {s : Text} (h : Unreserved s) : Unreserved s.trimNewlines := by
  intro c hc
  have hc := (List.dropWhile_sublist _).subset (List.mem_reverse.1 hc)
  exact h c ((List.dropWhile_sublist _).subset (List.mem_reverse.1 hc))

theorem unreserved_codeBlock {blocks : List Text} (h : ∀ b ∈ blocks, Unreserved b) (k : Nat) :
    Unreserved (codeBlock (blocks.getD k [])) := by
  have hk : Unreserved (blocks.getD k []) := by
    rw [List.getD_eq_getElem?_getD]
    cases hb : blocks[k]? with
    | none => exact fun _ hc => absurd hc (by simp)
    | some b => exact h b (List.mem_of_getElem? hb)
  have hpre : Unreserved "<pre>".toList := by decide
  have hclose : Unreserved "</pre>".toList := by decide
  rw [codeBlock_eq, shown, Rule.between]
  exact (hpre.append hk.trimNewlines.escape).append hclose

/-- The code blocks of the regions in `done`, and the placeholders of all others. -/
def partly (blocks : List Text) (done : List Nat) (k : Nat) : Text :=
  if k ∈ done then codeBlock (blocks.getD k []) else placeholder k

theorem foldl_restoreOne_partly {blocks : List Text} (h : ∀ b ∈ blocks, Unreserved b)
    {order : List (Text × Nat)} (horder : ∀ x ∈ order, blocks[x.2]? = some x.1) {done : List Nat}
    (hdone : ((order.map Prod.snd).reverse ++ done).Nodup) (html : Text) :
    order.foldl restoreOne ((placeholders blocks.length).substitute (partly blocks done) html) =
      (placeholders blocks.length).substitute
        (partly blocks ((order.map Prod.snd).reverse ++ done)) html := by
  induction order generalizing done with
  | nil => rfl
  | cons x order ih =>
    obtain ⟨b, n⟩ := x
    have hb : blocks[n]? = some b := horder (b, n) List.mem_cons_self
    rw [List.map_cons, List.reverse_cons, List.append_assoc, List.singleton_append] at hdone ⊢
    have hn : n ∉ done := (List.nodup_cons.1 (List.nodup_append.1 hdone).2.1).1
    have hstep : restoreOne ((placeholders blocks.length).substitute (partly blocks done) html) (b, n) =
        (placeholders blocks.length).substitute (partly blocks (n :: done)) html := by
      rw [restoreOne, substitute_placeholder_substitute (List.getElem?_eq_some_iff.1 hb).1]
      · refine congrArg (fun f => (placeholders blocks.length).substitute f html) ?_
        funext k
        by_cases hk : k = n
        · simp [partly, hk, List.getD_eq_getElem?_getD, hb]
        · simp [partly, hk]
      · intro k
        unfold partly
        split
        · exact .inr ⟨unreserved_codeBlock h k, rfl⟩
        · exact .inl rfl
      · exact if_neg hn
    rw [List.foldl_cons, hstep]
    exact ih (fun y hy => horder y (List.mem_cons_of_mem _ hy)) hdone

/-- Putting the regions back one after the other, in whatever order, is replacing all placeholders
at once. -/
theorem foldl_restoreOne_of_perm {blocks : List Text} (h : ∀ b ∈ blocks, Unreserved b)
    {order : List (Text × Nat)} (horder : order.Perm blocks.zipIdx) (html : Text) :
    order.foldl restoreOne html =
      (placeholders blocks.length).substitute (fun k => codeBlock (blocks.getD k [])) html := by
  have hindices : (order.map Prod.snd).Perm (List.range blocks.length) := by
    simpa [List.range_eq_range'] using horder.map Prod.snd
  have hget : ∀ x ∈ order, blocks[x.2]? = some x.1 := fun x hx =>
    List.mk_mem_zipIdx_iff_getElem?.1 (horder.mem_iff.1 hx)
  have hnodup : ((order.map Prod.snd).reverse ++ []).Nodup := by
    rw [List.append_nil]
    exact ((List.reverse_perm _).trans hindices).nodup_iff.2 List.nodup_range
  have hnone : (placeholders blocks.length).substitute (partly blocks []) html = html :=
    Pattern.substitute_source (fun {s r k} hr => (readPlaceholder?_eq_some.1 hr).2) html
  have hfold := foldl_restoreOne_partly h hget hnodup html
  rw [hnone] at hfold
  rw [hfold]
  refine Pattern.substitute_congr (fun {s r k} hr => if_pos ?_) html
  rw [List.append_nil, List.mem_reverse, hindices.mem_iff, List.mem_range]
  exact (readPlaceholder?_eq_some.1 hr).1

theorem foldl_restoreOne {blocks : List Text} (h : ∀ b ∈ blocks, Unreserved b) (html : Text) :
    blocks.zipIdx.foldl restoreOne html =
      (placeholders blocks.length).substitute (fun k => codeBlock (blocks.getD k [])) html :=
  foldl_restoreOne_of_perm h (List.Perm.refl _) html

/-- Whatever text code regions are put back into, it is a page with places for them. -/
theorem restore_eq_fill (n : Nat) (html : Text) :
    ∃ page : CodePage, (∀ x ∈ page.rest, x.1 < n) ∧
      ∀ blocks : List Text, blocks.length = n → (∀ b ∈ blocks, Unreserved b) →
        restore blocks html = page.fill (shown blocks) := by
  rcases Nat.eq_zero_or_pos n with rfl | hn
  · refine ⟨⟨html, []⟩, by simp, ?_⟩
    intro blocks hlen _
    rw [List.length_eq_zero_iff.1 hlen]
    simp [restore, CodePage.fill]
  · refine ⟨(CodePage.ofPieces ((placeholders n).pieces html)).dropBreaks, ?_, ?_⟩
    · intro x hx
      obtain ⟨y, hy, rfl⟩ := List.mem_map.1 hx
      obtain ⟨t, r, hr⟩ := Pattern.read_of_mem_pieces (CodePage.index_mem_ofPieces hy)
      exact (readPlaceholder?_eq_some.1 hr).1
    · rintro blocks rfl hb
      have hshown : ∀ k, '<' ∉ shown blocks k := fun k => Text.not_mem_escape _
      have hpieces : (placeholders blocks.length).substitute (fun k => codeBlock (blocks.getD k [])) html =
          (CodePage.ofPieces ((placeholders blocks.length).pieces html)).fill (shown blocks) := by
        rw [CodePage.fill_ofPieces, Pattern.substitute]
        simp only [codeBlock_eq]
      rw [restore_eq, if_neg (by simpa using List.length_pos_iff.1 hn), foldl_restoreOne hb, hpieces,
        CodePage.dropBreaks_fill hshown]

/-! ## What lifting out leaves behind -/

theorem read?_source {m : CodeMatching} {s r : Text} {x : Region}
    (h : (pattern m).read? s = some (x, r)) : s = x.source ++ r := by
  cases m with
  | nearest => exact (TagPair.readPair?_source h).1
  | greedy => exact (readGreedy?_source h).1

theorem flatMap_source_pieces (m : CodeMatching) (s : Text) :
    ((pattern m).pieces s).flatMap (Piece.fill Region.source) = s :=
  Pattern.substitute_source read?_source s

theorem unreserved_of_mem_pieces {m : CodeMatching} {s : Text} {p : Piece Char Region}
    (hs : Unreserved s) (h : p ∈ (pattern m).pieces s) :
    Unreserved (p.fill Region.source) := by
  intro c hc
  refine hs c ?_
  rw [← flatMap_source_pieces m s]
  exact List.mem_flatMap.2 ⟨p, h, hc⟩

theorem unreserved_of_mem_blocks {s b : Text} {m : CodeMatching}
    (h : b ∈ (protect s m).blocks) : Unreserved b := by
  obtain ⟨p, hp, hb⟩ := List.mem_filterMap.1 h
  have hu := unreserved_of_mem_pieces (unreserved_strip s) hp
  cases p with
  | plain c => cases hb
  | found r =>
    cases hb
    intro c hc
    exact hu c (by simp [Piece.fill, Region.source, hc])

theorem count_start_placeholder (k : Nat) : (placeholder k).count placeholderStart = 1 := by
  have hl : (label k).count placeholderStart = 0 :=
    List.count_eq_zero.2 fun hm => ne_start (unreserved_label k _ hm) rfl
  have hstop : (placeholderStop == placeholderStart) = false := by decide
  rw [placeholder_eq, List.count_cons_self, List.count_append, hl, List.count_cons, hstop]
  rfl

theorem count_start_fillFrom {ps : List (Piece Char Region)}
    (h : ∀ c, .plain c ∈ ps → c ≠ placeholderStart) (n : Nat) :
    (Piece.fillFrom (fun k _ => placeholder k) n ps).1.count placeholderStart =
      (contents ps).length := by
  induction ps generalizing n with
  | nil => rfl
  | cons p ps ih =>
    have ih := ih (fun c hc => h c (List.mem_cons_of_mem _ hc))
    cases p with
    | plain c =>
      have hc := h c List.mem_cons_self
      rw [Piece.fillFrom, List.count_cons_of_ne hc, ih]
      rfl
    | found r =>
      rw [Piece.fillFrom, List.count_append, count_start_placeholder, ih, Nat.add_comm]
      rfl

/-- The protected text tells how many code regions there are. -/
theorem length_blocks_protect (s : Text) (m : CodeMatching) :
    (protect s m).blocks.length = (protect s m).text.count placeholderStart := by
  rw [text_protect, count_start_fillFrom]
  · rfl
  · intro c hc
    have hu := unreserved_of_mem_pieces (unreserved_strip s) hc
    exact ne_start (hu c (by simp [Piece.fill]))

end Guarded

end BBCode
