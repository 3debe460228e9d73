import BBCode.Text

/-!
# BBCode.Text.Trim

Line breaks at the two ends of a text. A break is the markup `<br>`, a line feed or a carriage
return; `trimBreaks` removes every break from both ends and touches nothing else.

Main statement: `trimBreaks_append`, what is removed at the two ends is made of breaks only.
-/

namespace BBCode

/-- The markup of a line break. -/
def lineBreak : Text := "<br>".toList

namespace Text

def trimStart : Text → Text
  | '<' :: 'b' :: 'r' :: '>' :: s => trimStart s
  | '\n' :: s => trimStart s
  | '\r' :: s => trimStart s
  | s => s

/-- Works on the reversed text, where the markup of a break reads backwards. -/
def trimReversed : Text → Text
  | '>' :: 'r' :: 'b' :: '<' :: s => trimReversed s
  | '\n' :: s => trimReversed s
  | '\r' :: s => trimReversed s
  | s => s

def trimEnd (s : Text) : Text := (trimReversed s.reverse).reverse

def trimBreaks (s : Text) : Text := trimEnd (trimStart s)

end Text

/-- Texts made of line breaks only. -/
inductive Breaks : Text → Prop where
  | nil : Breaks []
  | markup {s : Text} : Breaks s → Breaks (lineBreak ++ s)
  | lineFeed {s : Text} : Breaks s → Breaks ('\n' :: s)
  | carriageReturn {s : Text} : Breaks s → Breaks ('\r' :: s)

theorem Text.trimStart_append (s : Text) : ∃ p, Breaks p ∧ s = p ++ s.trimStart := by
  fun_induction Text.trimStart s with
  | case1 s ih =>
    obtain ⟨p, hp, hs⟩ := ih
    exact ⟨lineBreak ++ p, .markup hp, by simpa [lineBreak] using hs⟩
  | case2 s ih =>
    obtain ⟨p, hp, hs⟩ := ih
    exact ⟨'\n' :: p, .lineFeed hp, by simpa using hs⟩
  | case3 s ih =>
    obtain ⟨p, hp, hs⟩ := ih
    exact ⟨'\r' :: p, .carriageReturn hp, by simpa using hs⟩
  | case4 s => exact ⟨[], .nil, by simp⟩

theorem Breaks.append {p q : Text} (hp : Breaks p) (hq : Breaks q) : Breaks (p ++ q) := by
  induction hp with
  | nil => exact hq
  | markup _ ih =>
    rw [List.append_assoc]
    exact ih.markup
  | lineFeed _ ih => exact ih.lineFeed
  | carriageReturn _ ih => exact ih.carriageReturn

theorem Text.trimReversed_append (s : Text) :
    ∃ q, Breaks q ∧ s.reverse = s.trimReversed.reverse ++ q := by
  fun_induction Text.trimReversed s with
  | case1 s ih =>
    obtain ⟨q, hq, hs⟩ := ih
    exact ⟨q ++ lineBreak, hq.append (.markup .nil), by simp [hs, lineBreak]⟩
  | case2 s ih =>
    obtain ⟨q, hq, hs⟩ := ih
    exact ⟨q ++ ['\n'], hq.append (.lineFeed .nil), by simp [hs]⟩
  | case3 s ih =>
    obtain ⟨q, hq, hs⟩ := ih
    exact ⟨q ++ ['\r'], hq.append (.carriageReturn .nil), by simp [hs]⟩
  | case4 s => exact ⟨[], .nil, by simp⟩

theorem Text.trimBreaks_append (s : Text) :
    ∃ p q, Breaks p ∧ Breaks q ∧ s = p ++ s.trimBreaks ++ q := by
  obtain ⟨p, hp, hs⟩ := s.trimStart_append
  obtain ⟨q, hq, ht⟩ := Text.trimReversed_append s.trimStart.reverse
  rw [List.reverse_reverse] at ht
  refine ⟨p, q, hp, hq, ?_⟩
  rw [List.append_assoc]
  exact hs.trans (congrArg (p ++ ·) ht)

end BBCode
