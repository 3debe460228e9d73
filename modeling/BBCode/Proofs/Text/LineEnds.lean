import BBCode.Proofs.Text.Skip
import BBCode.Proofs.Text.Trim

/-!
# BBCode.Proofs.Text.LineEnds

The two ways of ending a line: a line feed, or a carriage return and a line feed. Reading a word
that holds neither does not depend on how lines end.

* `toLf_toCrlf_append`: line ends written the long way can be shortened again.
* `readWord?_toCrlf`, `nearest?_toCrlf`, `farthest?_toCrlf`: the same occurrences are found.
* `trimNewlines_toCrlf`, `escape_toCrlf`: trimming and escaping do the same to both.
-/

namespace BBCode

namespace Text

/-- The text with a carriage return in front of every line feed. -/
def toCrlf (s : Text) : Text := s.flatMap fun c => if c = '\n' then ['\r', '\n'] else [c]

/-- The text without the carriage returns that stand in front of line feeds. -/
def toLf : Text → Text
  | '\r' :: '\n' :: s => '\n' :: toLf s
  | c :: s => c :: toLf s
  | [] => []

@[simp] theorem toCrlf_nil : toCrlf [] = [] := rfl

@[simp] theorem toCrlf_newline (s : Text) : toCrlf ('\n' :: s) = '\r' :: '\n' :: toCrlf s := rfl

theorem toCrlf_cons_of_ne {c : Char} (h : c ≠ '\n') (s : Text) :
    toCrlf (c :: s) = c :: toCrlf s := by
  rw [toCrlf, List.flatMap_cons, if_neg h]
  rfl

theorem toCrlf_append (s t : Text) : toCrlf (s ++ t) = toCrlf s ++ toCrlf t := List.flatMap_append

theorem toCrlf_eq_self {s : Text} (h : '\n' ∉ s) : toCrlf s = s := by
  induction s with
  | nil => rfl
  | cons c s ih =>
    obtain ⟨hc, hs⟩ := not_or.1 (mt List.mem_cons.2 h)
    rw [toCrlf_cons_of_ne (Ne.symm hc), ih hs]

theorem toLf_cons_of_ne {c : Char} (h : c ≠ '\r') (s : Text) : toLf (c :: s) = c :: toLf s := by
  rw [toLf]
  intro r hc
  exact absurd hc h

theorem toLf_append {s : Text} (h : '\r' ∉ s) (t : Text) : toLf (s ++ t) = s ++ toLf t := by
  induction s with
  | nil => rfl
  | cons c s ih =>
    obtain ⟨hc, hs⟩ := not_or.1 (mt List.mem_cons.2 h)
    rw [List.cons_append, toLf_cons_of_ne (Ne.symm hc), ih hs, List.cons_append]

theorem toLf_toCrlf_append {s : Text} (h : '\r' ∉ s) (t : Text) :
    toLf (toCrlf s ++ t) = s ++ toLf t := by
  induction s with
  | nil => rfl
  | cons c s ih =>
    obtain ⟨hc, hs⟩ := not_or.1 (mt List.mem_cons.2 h)
    by_cases hn : c = '\n'
    · rw [hn, toCrlf_newline, List.cons_append, List.cons_append, toLf, ih hs, List.cons_append]
    · rw [toCrlf_cons_of_ne hn, List.cons_append, toLf_cons_of_ne (Ne.symm hc), ih hs,
        List.cons_append]

theorem toLf_eq_self {s : Text} (h : '\r' ∉ s) : toLf s = s := by
  simpa [toLf] using toLf_append h []

theorem toLf_toCrlf {s : Text} (h : '\r' ∉ s) : toLf (toCrlf s) = s := by
  simpa [toLf] using toLf_toCrlf_append h []

/-! ## Reading words -/

section

variable {f : Char → Char} {w : Text}

theorem readWord?_toCrlf (h : f '\r' ∉ w ∧ f '\n' ∉ w) (s : Text) :
    readWord? f w (toCrlf s) = (readWord? f w s).map fun x => (x.1, toCrlf x.2) := by
  induction w generalizing s with
  | nil => rfl
  | cons p w ih =>
    obtain ⟨hr, hr'⟩ := not_or.1 (mt List.mem_cons.2 h.1)
    obtain ⟨hn, hn'⟩ := not_or.1 (mt List.mem_cons.2 h.2)
    cases s with
    | nil => rfl
    | cons c s =>
      by_cases hc : c = '\n'
      · rw [hc, toCrlf_newline, readWord?_cons_of_ne hr, readWord?_cons_of_ne hn]
        rfl
      · rw [toCrlf_cons_of_ne hc, readWord?, readWord?]
        split
        · rw [ih ⟨hr', hn'⟩ s, Option.map_map, Option.map_map]
          rfl
        · rfl

theorem readWord?_newline (h : f '\r' ∉ w ∧ f '\n' ∉ w) (hw : w ≠ []) (s : Text) :
    readWord? f w ('\r' :: s) = none ∧ readWord? f w ('\n' :: s) = none := by
  cases w with
  | nil => exact absurd rfl hw
  | cons p w =>
    exact ⟨readWord?_cons_of_ne (not_or.1 (mt List.mem_cons.2 h.1)).1,
      readWord?_cons_of_ne (not_or.1 (mt List.mem_cons.2 h.2)).1⟩

theorem nearest?_toCrlf (h : f '\r' ∉ w ∧ f '\n' ∉ w) (hw : w ≠ []) (s : Text) :
    nearest? f w (toCrlf s) =
      (nearest? f w s).map fun x => (toCrlf x.1, x.2.1, toCrlf x.2.2) := by
  induction s with
  | nil => cases w <;> rfl
  | cons c s ih =>
    by_cases hc : c = '\n'
    · rw [hc, toCrlf_newline, nearest?, (readWord?_newline h hw _).1, nearest?,
        (readWord?_newline h hw _).2, ih, nearest?, (readWord?_newline h hw _).2]
      simp only [Option.map_map]
      rfl
    · have hread := readWord?_toCrlf h (c :: s)
      rw [toCrlf_cons_of_ne hc] at hread ⊢
      rw [nearest?, hread, nearest?]
      cases readWord? f w (c :: s) with
      | some x => rfl
      | none =>
        rw [ih]
        simp only [Option.map_map, Option.map_none]
        refine congrArg (fun g => Option.map g (nearest? f w s)) (funext fun x => ?_)
        simp [toCrlf_cons_of_ne hc]

theorem farthest?_toCrlf (h : f '\r' ∉ w ∧ f '\n' ∉ w) (hw : w ≠ []) (s : Text) :
    farthest? f w (toCrlf s) =
      (farthest? f w s).map fun x => (toCrlf x.1, x.2.1, toCrlf x.2.2) := by
  induction s with
  | nil => cases w <;> rfl
  | cons c s ih =>
    by_cases hc : c = '\n'
    · rw [hc, toCrlf_newline, farthest?, (readWord?_newline h hw _).1, farthest?,
        (readWord?_newline h hw _).2, ih, farthest?, (readWord?_newline h hw _).2]
      cases farthest? f w s <;> rfl
    · have hread := readWord?_toCrlf h (c :: s)
      rw [toCrlf_cons_of_ne hc] at hread ⊢
      rw [farthest?, hread, farthest?, ih]
      cases farthest? f w s with
      | some x => simp [toCrlf_cons_of_ne hc]
      | none =>
        simp only [Option.map_map, Option.map_none]
        rfl

end

/-! ## Trimming and escaping -/

theorem trimNewlines_toCrlf (s : Text) : trimNewlines (toCrlf s) = toCrlf (trimNewlines s) := by
  have hstart : ∀ t : Text, (toCrlf t).dropWhile isNewline = toCrlf (t.dropWhile isNewline) := by
    refine dropWhile_flatMap (fun c hc => ?_) (fun c hc => ?_)
    · split
      · decide
      · simpa using hc
    · refine ⟨c, [], if_neg ?_, hc⟩
      rintro rfl
      cases hc
  have hstop : ∀ t : Text,
      (t.flatMap fun c => (if c = '\n' then ['\r', '\n'] else [c]).reverse).dropWhile isNewline =
        (t.dropWhile isNewline).flatMap
          fun c => (if c = '\n' then ['\r', '\n'] else [c]).reverse := by
    refine dropWhile_flatMap (fun c hc => ?_) (fun c hc => ?_)
    · split
      · decide
      · simpa using hc
    · refine ⟨c, [], ?_, hc⟩
      rw [if_neg]
      · rfl
      · rintro rfl
        cases hc
  have hrev : ∀ t : Text, (toCrlf t).reverse =
      t.reverse.flatMap fun c => (if c = '\n' then ['\r', '\n'] else [c]).reverse :=
    fun t => List.reverse_flatMap
  rw [trimNewlines, hstart, hrev, hstop, trimNewlines, ← List.reverse_inj, List.reverse_reverse,
    hrev, List.reverse_reverse]

theorem escape_toCrlf (s : Text) : escape (toCrlf s) = toCrlf (escape s) := by
  induction s with
  | nil => rfl
  | cons c s ih =>
    have hcons : ∀ t : Text, escape (c :: t) = escapeChar c ++ escape t := fun t => rfl
    by_cases hc : c = '\n'
    · rw [hc]
      exact congrArg (fun t => '\r' :: '\n' :: t) ih
    · have hself : toCrlf (escapeChar c) = escapeChar c := by
        rcases escapeChar_cases c with h | h | h | ⟨h, -, -⟩ <;> rw [h]
        · decide
        · decide
        · decide
        · exact toCrlf_cons_of_ne hc []
      rw [toCrlf_cons_of_ne hc, hcons, hcons, toCrlf_append, hself, ih]

end Text

end BBCode
