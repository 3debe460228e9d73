import BBCode.Proofs.Text.Skip
import BBCode.Proofs.Text.Trim

/-!
# BBCode.Proofs.Text.Ends

Trimming a text that is made of parts. Line breaks are read from one end until something else
stands there, so a part that starts and ends with no break, like a tag, keeps the breaks behind it
out of reach. The two ends do not compete: it makes no difference which one is trimmed first.

* `Firm.of_ends`: such a part is told by its first and last characters.
* `trimStart_trimEnd`: both orders of trimming the two ends are the same.
* `trimBreaks_trimEnd`: trimming twice is trimming once.
-/

namespace BBCode

namespace Text

variable {p : Char} {w x z : Text}

/-! ## One break -/

/-- A break that starts in a text ends in it, if what follows starts with no later character of the
markup. -/
theorem readBreak?_append (hx : x ≠ []) (hz : ∀ c ∈ z.head?, c ∉ w) :
    readBreak? (p :: w) (x ++ z) = (readBreak? (p :: w) x).map (· ++ z) := by
  cases x with
  | nil => exact absurd rfl hx
  | cons d x =>
    have hword : readWord? id (p :: w) (d :: (x ++ z)) =
        (readWord? id (p :: w) (d :: x)).map fun q => (q.1, q.2 ++ z) := by
      have hw : readWord? id w (x ++ z) = (readWord? id w x).map fun q => (q.1, q.2 ++ z) := by
        cases z with
        | nil => simp
        | cons c z => simpa using readWord?_append_of_stops (stops_of_not_mem (hz c rfl) z) x []
      rw [readWord?, readWord?, hw]
      by_cases hd : d = p
      · simp [hd, Function.comp_def]
      · simp [hd]
    rw [List.cons_append, readBreak?, readBreak?, hword]
    cases readWord? id (p :: w) (d :: x) with
    | some q => rfl
    | none =>
      simp only [Option.map_none]
      split <;> rfl

/-- Breaks are read off the front up to a part that starts with none. -/
theorem strip_append {F : Text → Text}
    (hF : ∀ s, F s = match readBreak? (p :: w) s with | some r => F r | none => s)
    (hnone : readBreak? (p :: w) z = none) (hz : ∀ c ∈ z.head?, c ∉ w) (x : Text) :
    F (x ++ z) = F x ++ z := by
  induction hlen : x.length using Nat.strongRecOn generalizing x with
  | ind len ih =>
    subst hlen
    by_cases hx : x = []
    · have hnil : F [] = [] := by rw [hF]; rfl
      rw [hx, List.nil_append, hF z, hnone, hnil]
      rfl
    · rw [hF, hF x, readBreak?_append hx hz]
      cases hr : readBreak? (p :: w) x with
      | none => rfl
      | some r => exact ih r.length (readBreak?_length hr) r rfl

/-- Whether a text starts with no break and with no later character of the markup `w`. -/
def startsFirm (w a : Text) : Bool :=
  match a with
  | c :: _ => !w.tail.contains c && clashes id w a && !isNewline c
  | [] => false

theorem readBreak?_of_startsFirm {a : Text} (h : startsFirm (p :: w) a = true) (y : Text) :
    readBreak? (p :: w) (a ++ y) = none ∧ ∀ c ∈ (a ++ y).head?, c ∉ w := by
  cases a with
  | nil => cases h
  | cons c a =>
    simp only [startsFirm, List.tail_cons, Bool.and_eq_true, Bool.not_eq_true',
      List.contains_eq_mem, decide_eq_false_iff_not] at h
    obtain ⟨⟨hmem, hclash⟩, hline⟩ := h
    have hword := readWord?_of_clashes hclash y
    refine ⟨?_, fun d hd => ?_⟩
    · rw [List.cons_append] at hword ⊢
      rw [readBreak?, hword]
      simp [hline]
    · cases hd
      exact hmem

/-! ## Firm parts -/

/-- A part of a text that no trimming gets past. -/
structure Firm (h : Text) : Prop where
  start : ∀ x y : Text, trimStart (x ++ (h ++ y)) = trimStart x ++ (h ++ y)
  stop : ∀ x y : Text, trimEnd (x ++ (h ++ y)) = x ++ (h ++ trimEnd y)

theorem Firm.of_ends {a b : Text} (ha : startsFirm lineBreak a = true)
    (hb : startsFirm lineBreak.reverse b.reverse = true) (m : Text) : Firm (a ++ (m ++ b)) where
  start x y := by
    rw [List.append_assoc]
    obtain ⟨hnone, hhead⟩ := readBreak?_of_startsFirm ha (m ++ b ++ y)
    exact strip_append trimStart_eq hnone hhead x
  stop x y := by
    obtain ⟨hnone, hhead⟩ := readBreak?_of_startsFirm hb (x ++ (a ++ m)).reverse
    have hstrip := strip_append trimReversed_eq hnone hhead y.reverse
    have hrev : (x ++ (a ++ (m ++ b) ++ y)).reverse =
        y.reverse ++ (b.reverse ++ (x ++ (a ++ m)).reverse) := by simp
    rw [trimEnd, hrev, hstrip, trimEnd]
    simp

theorem Firm.between {a b : Text} (ha : Firm a) (hb : Firm b) (m : Text) :
    Firm (a ++ (m ++ b)) where
  start x y := by
    rw [List.append_assoc]
    exact ha.start x (m ++ b ++ y)
  stop x y := by
    have h := hb.stop (x ++ (a ++ m)) y
    simpa using h

end Text

/-! ## Both ends -/

namespace Breaks

variable {p q : Text}

theorem trimStart_append (h : Breaks p) (s : Text) : Text.trimStart (p ++ s) = s.trimStart := by
  induction h with
  | nil => rfl
  | markup _ ih => exact ih
  | lineFeed _ ih => exact ih
  | carriageReturn _ ih => exact ih

theorem trimEnd_append (h : Breaks q) (s : Text) : Text.trimEnd (s ++ q) = s.trimEnd := by
  have hone : ∀ b ∈ [lineBreak, ['\n'], ['\r']], ∀ t : Text, Text.trimEnd (t ++ b) = t.trimEnd := by
    intro b hb t
    simp only [List.mem_cons, List.not_mem_nil, or_false] at hb
    rcases hb with rfl | rfl | rfl <;> rw [Text.trimEnd, List.reverse_append] <;> rfl
  induction h generalizing s with
  | nil => rw [List.append_nil]
  | @markup q _ ih => rw [← List.append_assoc, ih, hone _ (by simp)]
  | @lineFeed q _ ih => rw [← List.singleton_append, ← List.append_assoc, ih, hone _ (by simp)]
  | @carriageReturn q _ ih =>
    rw [← List.singleton_append, ← List.append_assoc, ih, hone _ (by simp)]

theorem head_not_mem (h : Breaks p) : ∀ c ∈ p.head?, c ∉ lineBreak.tail := by
  cases h with
  | nil => simp
  | markup _ => rintro c ⟨⟩; decide
  | lineFeed _ => rintro c ⟨⟩; decide
  | carriageReturn _ => rintro c ⟨⟩; decide

theorem last_not_mem (h : Breaks p) : ∀ c ∈ p.reverse.head?, c ∉ lineBreak.reverse.tail := by
  have hone : ∀ {t b : Text}, (∀ c ∈ t.reverse.head?, c ∉ lineBreak.reverse.tail) →
      (∀ c ∈ b.reverse.head?, c ∉ lineBreak.reverse.tail) →
      ∀ c ∈ (b ++ t).reverse.head?, c ∉ lineBreak.reverse.tail := by
    intro t b ht hb c hc
    rw [List.reverse_append, List.head?_append, Option.mem_def, Option.or_eq_some_iff] at hc
    exact hc.elim (ht c) fun hc => hb c hc.2
  induction h with
  | nil => simp
  | markup _ ih => exact hone ih (by rintro c ⟨⟩; decide)
  | @lineFeed s _ ih => exact hone (b := ['\n']) ih (by rintro c ⟨⟩; decide)
  | @carriageReturn s _ ih => exact hone (b := ['\r']) ih (by rintro c ⟨⟩; decide)

end Breaks

namespace Text

theorem readBreak?_trimStart (s : Text) : readBreak? lineBreak s.trimStart = none := by
  fun_induction trimStart s with
  | case1 s ih => exact ih
  | case2 s ih => exact ih
  | case3 s ih => exact ih
  | case4 s h1 h2 h3 => exact readBreak?_eq_none h1 h2 h3

theorem readBreak?_trimReversed (s : Text) :
    readBreak? lineBreak.reverse s.trimReversed = none := by
  fun_induction trimReversed s with
  | case1 s ih => exact ih
  | case2 s ih => exact ih
  | case3 s ih => exact ih
  | case4 s h1 h2 h3 => exact readBreak?_eq_none h1 h2 h3

theorem trimStart_of_readBreak? {s : Text} (h : readBreak? lineBreak s = none) :
    s.trimStart = s := by
  rw [trimStart_eq, h]

theorem trimStart_trimStart (s : Text) : s.trimStart.trimStart = s.trimStart :=
  trimStart_of_readBreak? (readBreak?_trimStart s)

theorem trimEnd_trimEnd (s : Text) : s.trimEnd.trimEnd = s.trimEnd := by
  rw [trimEnd, trimEnd, List.reverse_reverse, trimReversed_eq, readBreak?_trimReversed]

theorem trimEnd_append (s : Text) : ∃ q, Breaks q ∧ s = s.trimEnd ++ q := by
  obtain ⟨q, hq, hs⟩ := trimReversed_append s.reverse
  rw [List.reverse_reverse] at hs
  exact ⟨q, hq, hs⟩

/-- It makes no difference which end of a text is trimmed first. -/
theorem trimStart_trimEnd (s : Text) : s.trimEnd.trimStart = s.trimStart.trimEnd := by
  obtain ⟨p, hp, hs⟩ := trimStart_append s
  obtain ⟨q, hq, hm⟩ := trimEnd_append s.trimStart
  have hfirst : readBreak? lineBreak s.trimStart = none := readBreak?_trimStart s
  have hlast : readBreak? lineBreak.reverse s.trimStart.trimEnd.reverse = none := by
    rw [trimEnd, List.reverse_reverse]
    exact readBreak?_trimReversed _
  rw [hm] at hs hfirst
  generalize s.trimStart.trimEnd = m at hs hfirst hlast ⊢
  have htrim : s.trimEnd = (p ++ m).trimEnd := by
    rw [hs, ← List.append_assoc]
    exact hq.trimEnd_append (p ++ m)
  rw [htrim]
  by_cases hne : m = []
  · -- nothing but breaks
    have hp : (p ++ []).trimEnd = [] := (hp.append .nil).trimEnd_append []
    rw [hne, hp]
    rfl
  · have hend : (p ++ m).trimEnd = p ++ m := by
      have hnone : readBreak? lineBreak.reverse (m.reverse ++ p.reverse) = none := by
        have hne : m.reverse ≠ [] := by simpa using hne
        have happend := readBreak?_append (p := '>') hne hp.last_not_mem
        exact happend.trans (congrArg _ hlast)
      rw [trimEnd, List.reverse_append, trimReversed_eq, hnone, ← List.reverse_append,
        List.reverse_reverse]
    have hstart : readBreak? lineBreak m = none := by
      have happend := readBreak?_append (p := '<') hne hq.head_not_mem
      exact Option.map_eq_none_iff.1 (happend.symm.trans hfirst)
    rw [hend, hp.trimStart_append, trimStart_of_readBreak? hstart]

theorem trimBreaks_trimEnd (s : Text) : s.trimEnd.trimBreaks = s.trimBreaks := by
  rw [trimBreaks, trimStart_trimEnd, trimEnd_trimEnd, trimBreaks]

theorem trimBreaks_trimBreaks (s : Text) : s.trimBreaks.trimBreaks = s.trimBreaks := by
  calc s.trimBreaks.trimBreaks = s.trimStart.trimBreaks := trimBreaks_trimEnd _
    _ = s.trimBreaks := by rw [trimBreaks, trimStart_trimStart, trimBreaks]

end Text

/-- Breaks around a text that starts and ends with none are all that is trimmed. -/
theorem Breaks.trimBreaks_append {p q m : Text} (hp : Breaks p) (hq : Breaks q)
    (hm : m.trimBreaks = m) : (p ++ (m ++ q)).trimBreaks = m := by
  calc (p ++ (m ++ q)).trimBreaks = (m ++ q).trimBreaks := by
        rw [Text.trimBreaks, hp.trimStart_append, Text.trimBreaks]
    _ = (m ++ q).trimEnd.trimBreaks := (Text.trimBreaks_trimEnd _).symm
    _ = m.trimEnd.trimBreaks := by rw [hq.trimEnd_append]
    _ = m := by rw [Text.trimBreaks_trimEnd, hm]

end BBCode
