import BBCode.Proofs.Guard.Bodies

/-!
# BBCode.Proofs.Guard.Substitution

Putting code regions back as one substitution. Whatever text the regions of a document are put back
into, and in whatever order, each placeholder of a region becomes a code block that shows the
contents of the region as they were typed, less the line ends around them; then the line break
after each code block goes.

* `unescape_escape`: escaped contents can be read back.
* `dropBreaks_eq_clearBreaks`: at most one line break goes after each code block.
* `restore_eq_filled`: the statement about putting back.
-/

namespace BBCode

namespace Text

/-! ## Reading escaped text -/

/-- The text that an escaped text stands for. -/
def unescape : Text → Text
  | '&' :: 'a' :: 'm' :: 'p' :: ';' :: s => '&' :: unescape s
  | '&' :: 'l' :: 't' :: ';' :: s => '<' :: unescape s
  | '&' :: 'g' :: 't' :: ';' :: s => '>' :: unescape s
  | c :: s => c :: unescape s
  | [] => []

theorem unescape_cons {c : Char} (h : c ≠ '&') (s : Text) : unescape (c :: s) = c :: unescape s := by
  rw [unescape] <;> intro t ht <;> exact absurd ht h

theorem unescape_escape (s : Text) : unescape (escape s) = s := by
  induction s with
  | nil => rfl
  | cons c s ih =>
    rw [escape, List.flatMap_cons, ← escape]
    unfold escapeChar
    split
    · exact congrArg ('&' :: ·) ih
    · exact congrArg ('<' :: ·) ih
    · exact congrArg ('>' :: ·) ih
    · rename_i hc _ _
      rw [List.singleton_append, unescape_cons hc, ih]

end Text

namespace Guarded

/-! ## Line breaks after code blocks -/

/-- The text before the first end of a code block, and the texts that follow the ends. -/
def blockParts : Text → Text × List Text
  | '<' :: '/' :: 'p' :: 'r' :: 'e' :: '>' :: s => ([], (blockParts s).1 :: (blockParts s).2)
  | c :: s => (c :: (blockParts s).1, (blockParts s).2)
  | [] => ([], [])

/-- The text without the line break after each end of a code block. -/
def clearBreaks (s : Text) : Text :=
  (blockParts s).1 ++ (blockParts s).2.flatMap fun x => "</pre>".toList ++ skipBreak x

theorem blockParts_cons_of_ne {c : Char} (h : c ≠ '<') (s : Text) :
    blockParts (c :: s) = (c :: (blockParts s).1, (blockParts s).2) := by
  rw [blockParts]
  intro t hc
  exact absurd hc h

/-- A line break holds no end of a code block, and no blank does. -/
theorem blockParts_break {x : Text} (hx : ∀ c ∈ x, isBlank c = true) (s : Text) :
    blockParts (x ++ (lineBreak ++ s)) =
      (x ++ (lineBreak ++ (blockParts s).1), (blockParts s).2) := by
  induction x with
  | nil => rfl
  | cons c x ih =>
    have hc : c ≠ '<' := by
      rintro rfl
      exact absurd (hx '<' List.mem_cons_self) (by decide)
    rw [List.cons_append, blockParts_cons_of_ne hc, ih fun d hd => hx d (List.mem_cons_of_mem c hd)]
    rfl

theorem blockParts_append (s : Text) :
    (blockParts s).1 ++ (blockParts s).2.flatMap ("</pre>".toList ++ ·) = s := by
  fun_induction blockParts s with
  | case1 s ih =>
    rw [List.nil_append, List.flatMap_cons, List.append_assoc, ih]
    rfl
  | case2 c s _ ih => exact congrArg (c :: ·) ih
  | case3 => rfl

theorem skipBreak_break {x : Text} (hx : ∀ c ∈ x, isBlank c = true) (s : Text) :
    skipBreak (x ++ (lineBreak ++ s)) = s := by
  have hdrop : (x ++ (lineBreak ++ s)).dropWhile isBlank = lineBreak ++ s := by
    rw [List.dropWhile_append_of_pos hx]
    exact List.dropWhile_cons_of_neg (by decide)
  rw [skipBreak, hdrop, readWord?_self_append (by decide)]

/-- A text starts with a line break behind blanks, or nothing is left out and no part of it in front
starts so either. -/
theorem skipBreak_cases (s : Text) :
    (∃ x, (∀ c ∈ x, isBlank c = true) ∧ s = x ++ (lineBreak ++ skipBreak s)) ∨
      (skipBreak s = s ∧ ∀ x y, s = x ++ y → skipBreak x = x) := by
  cases hb : readWord? id lineBreak (s.dropWhile isBlank) with
  | some z =>
    obtain ⟨a, r⟩ := z
    obtain ⟨ha, hs⟩ := readWord?_eq_some.1 hb
    rw [List.map_id] at ha
    refine .inl ⟨s.takeWhile isBlank, List.all_eq_true.1 List.all_takeWhile, ?_⟩
    simp only [skipBreak, hb]
    rw [← ha, ← hs, List.takeWhile_append_dropWhile]
  | none =>
    refine .inr ⟨by simp only [skipBreak, hb], ?_⟩
    rintro x y rfl
    cases hx : readWord? id lineBreak (x.dropWhile isBlank) with
    | none => simp only [skipBreak, hx]
    | some z =>
      -- the break would stand at the front of the whole text too
      obtain ⟨a, r⟩ := z
      obtain ⟨ha, hs⟩ := readWord?_eq_some.1 hx
      have hne : (x.dropWhile isBlank).isEmpty = false := by
        rw [hs]
        cases a with
        | nil => cases ha
        | cons c a => rfl
      rw [List.dropWhile_append, if_neg (by simp [hne]), hs, List.append_assoc,
        readWord?_eq_some.2 ⟨ha, rfl⟩] at hb
      cases hb

theorem blockParts_skipBreak (s : Text) :
    blockParts (skipBreak s) = (skipBreak (blockParts s).1, (blockParts s).2) := by
  rcases skipBreak_cases s with ⟨x, hx, hs⟩ | ⟨hs, hfront⟩
  · have hparts := blockParts_break hx (skipBreak s)
    rw [← hs] at hparts
    rw [hparts, skipBreak_break hx]
  · rw [hs, hfront (blockParts s).1 _ (blockParts_append s).symm]

theorem length_skipBreak_le (s : Text) : (skipBreak s).length ≤ s.length := by
  rcases skipBreak_cases s with ⟨x, -, hs⟩ | ⟨hs, -⟩
  · have hlen := congrArg List.length hs
    simp only [List.length_append] at hlen
    omega
  · exact Nat.le_of_eq (congrArg List.length hs)

/-- At most one line break goes after each end of a code block. -/
theorem dropBreaks_eq_clearBreaks (s : Text) : dropBreaks s = clearBreaks s := by
  induction hlen : s.length using Nat.strongRecOn generalizing s with
  | ind len ih =>
    subst hlen
    rw [clearBreaks]
    fun_cases blockParts s with
    | case1 s =>
      have hshort : (skipBreak s).length < ("</pre>".toList ++ s).length := by
        have hle := length_skipBreak_le s
        have hpos : 0 < "</pre>".toList.length := by decide
        rw [List.length_append]
        omega
      show dropBreaks ("</pre>".toList ++ s) =
        "</pre>".toList ++ skipBreak (blockParts s).1 ++ (blockParts s).2.flatMap _
      rw [dropBreaks_closing, ih _ hshort _ rfl, clearBreaks, blockParts_skipBreak, List.append_assoc]
    | case2 c s hne =>
      have hword : readWord? id "</pre>".toList (c :: s) = none := by
        rw [Option.eq_none_iff_forall_ne_some]
        rintro ⟨a, r⟩ ha
        obtain ⟨hmap, hs⟩ := readWord?_eq_some.1 ha
        rw [List.map_id] at hmap
        rw [hmap] at hs
        exact hne r (List.cons.inj hs).1 (List.cons.inj hs).2
      have hread : (Rule.tagBreak "</pre>".toList).read? (c :: s) = none := by
        show Rule.readTagBreak? _ _ = none
        rw [Rule.readTagBreak?, hword]
      have hs := ih s.length (Nat.lt_succ_self _) s rfl
      rw [dropBreaks, Pattern.substitute_of_not_read hread, ← dropBreaks, hs]
      rfl
    | case3 => exact Pattern.substitute_nil _ _

/-! ## Putting back -/

/-- The text in which each placeholder of a code region is replaced by a code block. -/
def filled (blocks : List Text) (html : Text) : Text :=
  (placeholders blocks.length).substitute
    (fun k => Rule.between "<pre>" "</pre>" (shown blocks k)) html

theorem foldl_restoreOne_eq_filled {blocks : List Text} (h : ∀ b ∈ blocks, Unreserved b)
    {order : List (Text × Nat)} (horder : order.Perm blocks.zipIdx) (html : Text) :
    order.foldl restoreOne html = filled blocks html := by
  rw [foldl_restoreOne_of_perm h horder, filled]
  simp only [codeBlock_eq]

theorem filled_nil (html : Text) : filled [] html = html :=
  Pattern.substitute_eq_self (.of_forall_mem fun _ _ _ => rfl)

/-- Putting back replaces all placeholders of a document's code regions at once, in whatever order
it goes through the regions, and drops at most one line break after each code block. What a code
block shows holds no tags and reads as the contents of its region without the line ends around
them. -/
theorem restore_eq_filled (source : Text) (m : CodeMatching) (html : Text) :
    (restore (protect source m).blocks html =
      if (protect source m).blocks = [] then filled (protect source m).blocks html
      else clearBreaks (filled (protect source m).blocks html)) ∧
    (∀ order : List (Text × Nat), order.Perm (protect source m).blocks.zipIdx →
      order.foldl restoreOne html = filled (protect source m).blocks html) ∧
    ∀ k, '<' ∉ shown (protect source m).blocks k ∧ '>' ∉ shown (protect source m).blocks k ∧
      (shown (protect source m).blocks k).unescape =
        ((protect source m).blocks.getD k []).trimNewlines := by
  have hu : ∀ b ∈ (protect source m).blocks, Unreserved b := fun b hb => unreserved_of_mem_blocks hb
  refine ⟨?_, fun order horder => foldl_restoreOne_eq_filled hu horder html, fun k =>
    ⟨Text.not_mem_escape _, fun hgt => (Text.ne_of_mem_escape hgt).2 rfl, Text.unescape_escape _⟩⟩
  rw [restore_eq]
  split
  · rename_i hnil
    rw [if_pos (List.isEmpty_iff.1 hnil), List.isEmpty_iff.1 hnil, filled_nil]
  · rename_i hnil
    rw [if_neg fun h => hnil (List.isEmpty_iff.2 h),
      foldl_restoreOne_eq_filled hu (List.Perm.refl _), dropBreaks_eq_clearBreaks]

/-- A typed line break and a typed entity, put back in the other order among a line break that goes,
one that stays and a placeholder of no region. -/
theorem restore_eq_filled_swapped :
    [("&lt;".toList, 1), ("\n<br>".toList, 0)].Perm
        (protect "[code]\n<br>[/code][code]&lt;[/code]".toList .nearest).blocks.zipIdx ∧
      [("&lt;".toList, 1), ("\n<br>".toList, 0)].foldl restoreOne
          (placeholder 1 ++ (" <br><br>".toList ++ (placeholder 0 ++ placeholder 2))) =
        "<pre>&amp;lt;</pre> <br><br><pre>&lt;br&gt;</pre>".toList ++ placeholder 2 ∧
      restore (protect "[code]\n<br>[/code][code]&lt;[/code]".toList .nearest).blocks
          (placeholder 1 ++ (" <br><br>".toList ++ (placeholder 0 ++ placeholder 2))) =
        "<pre>&amp;lt;</pre><br><pre>&lt;br&gt;</pre>".toList ++ placeholder 2 := by
  have hblocks : (protect "[code]\n<br>[/code][code]&lt;[/code]".toList .nearest).blocks =
      ["\n<br>".toList, "&lt;".toList] := by decide +kernel
  have horder : [("&lt;".toList, 1), ("\n<br>".toList, 0)].Perm
      (protect "[code]\n<br>[/code][code]&lt;[/code]".toList .nearest).blocks.zipIdx := by
    rw [hblocks]
    exact List.Perm.swap _ _ _
  obtain ⟨hrestore, hfold, -⟩ :=
    restore_eq_filled "[code]\n<br>[/code][code]&lt;[/code]".toList .nearest
      (placeholder 1 ++ (" <br><br>".toList ++ (placeholder 0 ++ placeholder 2)))
  refine ⟨horder, (hfold _ horder).trans ?_, hrestore.trans ?_⟩
  · rw [hblocks]
    decide +kernel
  · rw [hblocks]
    decide +kernel

end Guarded

end BBCode
