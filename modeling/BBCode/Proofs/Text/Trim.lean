import BBCode.Text.Escape
import BBCode.Text.Trim

/-!
# BBCode.Proofs.Text.Trim

Line breaks at the ends of texts that hold no markup of a break.

* `trimBreaks_eq_trimNewlines`: without the markup, line feeds and carriage returns go alone.
* `trimBreaks_escape`: escaped contents lose exactly the line ends around them.
-/

namespace BBCode

def isNewline (c : Char) : Bool := c = '\n' || c = '\r'

namespace Text

/-- A text without the line feeds and carriage returns at its ends. -/
def trimNewlines (s : Text) : Text :=
  ((s.dropWhile isNewline).reverse.dropWhile isNewline).reverse

/-- Reads one line break: the word `w`, or the end of a line. -/
def readBreak? (w s : Text) : Option Text :=
  match readWord? id w s with
  | some (_, r) => some r
  | none =>
    match s with
    | c :: r => if isNewline c then some r else none
    | [] => none

theorem readBreak?_length {p : Char} {w s r : Text} (h : readBreak? (p :: w) s = some r) :
    r.length < s.length := by
  unfold readBreak? at h
  split at h
  · rename_i a q hq
    cases h
    have := readWord?_length hq
    simp only [List.length_cons] at this
    omega
  · split at h
    · split at h
      · cases h
        simp
      · cases h
    · cases h

theorem readBreak?_eq_none {w s : Text} (hw : ∀ r, s ≠ w ++ r) (hn : ∀ r, s ≠ '\n' :: r)
    (hr : ∀ r, s ≠ '\r' :: r) : readBreak? w s = none := by
  have hword : readWord? id w s = none := by
    rw [Option.eq_none_iff_forall_ne_some]
    rintro ⟨a, r⟩ ha
    obtain ⟨hmap, hs⟩ := readWord?_eq_some.1 ha
    rw [List.map_id] at hmap
    exact hw r (hmap ▸ hs)
  unfold readBreak?
  rw [hword]
  cases s with
  | nil => rfl
  | cons c r =>
    have hc : isNewline c = false := by
      simp only [isNewline, Bool.or_eq_false_iff, decide_eq_false_iff_not]
      exact ⟨fun h => hn r (by rw [h]), fun h => hr r (by rw [h])⟩
    simp [hc]

theorem trimStart_eq (s : Text) :
    s.trimStart = (match readBreak? lineBreak s with | some r => r.trimStart | none => s) := by
  fun_cases trimStart s with
  | case1 s => simp [readBreak?, lineBreak, readWord?]
  | case2 s => simp [readBreak?, lineBreak, readWord?, isNewline]
  | case3 s => simp [readBreak?, lineBreak, readWord?, isNewline]
  | case4 s h1 h2 h3 => rw [readBreak?_eq_none h1 h2 h3]

theorem trimReversed_eq (s : Text) :
    s.trimReversed =
      (match readBreak? lineBreak.reverse s with | some r => r.trimReversed | none => s) := by
  fun_cases trimReversed s with
  | case1 s => simp [readBreak?, lineBreak, readWord?]
  | case2 s => simp [readBreak?, lineBreak, readWord?, isNewline]
  | case3 s => simp [readBreak?, lineBreak, readWord?, isNewline]
  | case4 s h1 h2 h3 => rw [readBreak?_eq_none h1 h2 h3]

theorem trimStart_eq_dropWhile {s : Text} (h : '<' ∉ s) : s.trimStart = s.dropWhile isNewline := by
  fun_induction trimStart s with
  | case1 s ih => simp at h
  | case2 s ih =>
    rw [ih fun hm => h (by simp [hm]), List.dropWhile_cons_of_pos (by decide)]
  | case3 s ih =>
    rw [ih fun hm => h (by simp [hm]), List.dropWhile_cons_of_pos (by decide)]
  | case4 s h1 h2 h3 =>
    cases s with
    | nil => rfl
    | cons c s =>
      rw [List.dropWhile_cons_of_neg]
      simp only [isNewline, Bool.or_eq_true, decide_eq_true_eq]
      rintro (rfl | rfl)
      · exact h2 s rfl
      · exact h3 s rfl

theorem trimReversed_eq_dropWhile {s : Text} (h : '<' ∉ s) :
    s.trimReversed = s.dropWhile isNewline := by
  fun_induction trimReversed s with
  | case1 s ih => simp at h
  | case2 s ih =>
    rw [ih fun hm => h (by simp [hm]), List.dropWhile_cons_of_pos (by decide)]
  | case3 s ih =>
    rw [ih fun hm => h (by simp [hm]), List.dropWhile_cons_of_pos (by decide)]
  | case4 s h1 h2 h3 =>
    cases s with
    | nil => rfl
    | cons c s =>
      rw [List.dropWhile_cons_of_neg]
      simp only [isNewline, Bool.or_eq_true, decide_eq_true_eq]
      rintro (rfl | rfl)
      · exact h2 s rfl
      · exact h3 s rfl

theorem trimBreaks_eq_trimNewlines {s : Text} (h : '<' ∉ s) : s.trimBreaks = s.trimNewlines := by
  have hd : '<' ∉ (s.dropWhile isNewline).reverse := fun hm =>
    h ((List.dropWhile_sublist isNewline).subset (List.mem_reverse.1 hm))
  rw [trimBreaks, trimEnd, trimStart_eq_dropWhile h, trimReversed_eq_dropWhile hd, trimNewlines]

/-- Dropping line ends in front commutes with writing each character by itself, if line ends are
written with line ends and nothing else is written with a line end in front. -/
theorem dropWhile_flatMap {g : Char → Text}
    (hn : ∀ c, isNewline c = true → ∀ d ∈ g c, isNewline d = true)
    (ho : ∀ c, isNewline c = false → ∃ d s, g c = d :: s ∧ isNewline d = false) (s : Text) :
    (s.flatMap g).dropWhile isNewline = (s.dropWhile isNewline).flatMap g := by
  induction s with
  | nil => rfl
  | cons c s ih =>
    cases hc : isNewline c with
    | true =>
      rw [List.flatMap_cons, List.dropWhile_append_of_pos (hn c hc), List.dropWhile_cons_of_pos hc,
        ih]
    | false =>
      obtain ⟨d, t, hg, hd⟩ := ho c hc
      rw [List.dropWhile_cons_of_neg (by simp [hc]), List.flatMap_cons, hg, List.cons_append,
        List.dropWhile_cons_of_neg (by simp [hd])]

theorem escapeChar_cases (c : Char) :
    escapeChar c = "&amp;".toList ∨ escapeChar c = "&lt;".toList ∨ escapeChar c = "&gt;".toList ∨
      (escapeChar c = [c] ∧ c ≠ '<' ∧ c ≠ '>') := by
  unfold escapeChar
  split
  · exact .inl rfl
  · exact .inr (.inl rfl)
  · exact .inr (.inr (.inl rfl))
  · rename_i h2 h3
    exact .inr (.inr (.inr ⟨rfl, h2, h3⟩))

theorem escapeChar_of_isNewline {c : Char} (h : isNewline c = true) : escapeChar c = [c] := by
  simp only [isNewline, Bool.or_eq_true, decide_eq_true_eq] at h
  rcases h with rfl | rfl <;> rfl

theorem trimNewlines_escape (s : Text) : s.escape.trimNewlines = s.trimNewlines.escape := by
  have hstart : ∀ t : Text, t.escape.dropWhile isNewline = Text.escape (t.dropWhile isNewline) := by
    intro t
    refine dropWhile_flatMap (fun c hc => by simpa [escapeChar_of_isNewline hc] using hc)
      (fun c hc => ?_) t
    rcases escapeChar_cases c with h | h | h | ⟨h, -, -⟩ <;> rw [h]
    · exact ⟨'&', "amp;".toList, rfl, by decide⟩
    · exact ⟨'&', "lt;".toList, rfl, by decide⟩
    · exact ⟨'&', "gt;".toList, rfl, by decide⟩
    · exact ⟨c, [], rfl, hc⟩
  have hstop : ∀ t : Text,
      (t.flatMap fun c => (escapeChar c).reverse).dropWhile isNewline =
        (t.dropWhile isNewline).flatMap fun c => (escapeChar c).reverse := by
    intro t
    refine dropWhile_flatMap (fun c hc => by simpa [escapeChar_of_isNewline hc] using hc)
      (fun c hc => ?_) t
    rcases escapeChar_cases c with h | h | h | ⟨h, -, -⟩ <;> rw [h]
    · exact ⟨';', "pma&".toList, rfl, by decide⟩
    · exact ⟨';', "tl&".toList, rfl, by decide⟩
    · exact ⟨';', "tg&".toList, rfl, by decide⟩
    · exact ⟨c, [], rfl, hc⟩
  have hrev : ∀ t : Text, t.escape.reverse = t.reverse.flatMap fun c => (escapeChar c).reverse :=
    fun t => List.reverse_flatMap
  rw [trimNewlines, hstart, hrev, hstop, trimNewlines, ← List.reverse_inj, List.reverse_reverse,
    hrev, List.reverse_reverse]

theorem ne_of_mem_escape {s : Text} {d : Char} (h : d ∈ s.escape) : d ≠ '<' ∧ d ≠ '>' := by
  have hwords : ∀ w ∈ ["&amp;".toList, "&lt;".toList, "&gt;".toList], ∀ d ∈ w, d ≠ '<' ∧ d ≠ '>' := by
    decide
  obtain ⟨c, -, hd⟩ := List.mem_flatMap.1 h
  rcases escapeChar_cases c with h' | h' | h' | ⟨h', hlt, hgt⟩ <;> rw [h'] at hd
  · exact hwords _ (by simp) d hd
  · exact hwords _ (by simp) d hd
  · exact hwords _ (by simp) d hd
  · rw [List.mem_singleton.1 hd]
    exact ⟨hlt, hgt⟩

theorem not_mem_escape (s : Text) : '<' ∉ s.escape := fun h => (ne_of_mem_escape h).1 rfl

/-- Escaped contents lose exactly the line ends around them. -/
theorem trimBreaks_escape (s : Text) : s.escape.trimBreaks = s.trimNewlines.escape := by
  rw [trimBreaks_eq_trimNewlines (not_mem_escape s), trimNewlines_escape]

end Text

end BBCode
