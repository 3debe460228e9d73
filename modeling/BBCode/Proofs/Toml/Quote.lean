import BBCode.Toml.Printer
import BBCode.Toml.Quoted

/-!
# BBCode.Proofs.Toml.Quote

Every text can be written as a string, and what is written is read back. Where a string ends and
what it says are found apart, so each character of a basic string is followed through both
readers: how it is spelled, that its spelling ends no string, and that it says the character.

* `basicBody_cons`: how the writer spells one character.
* `spanBasicLines_body` and `spanLiteralLines_append`: quotes in front of the closing ones belong
  to the text.
* `readString?_quote`: a text in the notation chosen for it is read back.
-/

namespace BBCode.Toml

variable {s r x w : Text} {c : Char}

theorem Span.after_after (a b : Text) (y : Span) : (y.after b).after a = y.after (a ++ b) := by
  obtain ⟨body, r⟩ := y
  cases body <;> simp [Span.after]

theorem isPrintable_of_not_needsEscape (h : needsEscape c = false) (hn : c ≠ '\n') :
    isPrintable c = true := by
  simp only [needsEscape, Bool.or_eq_false_iff, Bool.and_eq_false_iff, decide_eq_false_iff_not]
    at h
  simp only [isPrintable, Bool.or_eq_true, Bool.and_eq_true, decide_eq_true_eq]
  rcases h with ⟨(h | h) | h, h127⟩
  · exact .inr ⟨by omega, h127⟩
  · exact .inl (Decidable.not_not.1 h)
  · exact absurd hn h

theorem ne_of_isPrintable (h : isPrintable c = true) : c ≠ '\n' ∧ c ≠ '\r' := by
  constructor
  · rintro rfl
    exact absurd h (by decide)
  · rintro rfl
    exact absurd h (by decide)

/-! ## How a character is spelled -/

/-- How a character can be spelled in a basic string so that no quote of it is taken for an end. On
several lines a line feed spells itself. -/
inductive Spelling (lines : Bool) : Char → Text → Prop where
  | self {c : Char} (hc : isPrintable c = true) (hq : c ≠ '"') (hb : c ≠ '\\') :
    Spelling lines c [c]
  | lineFeed (h : lines = true) : Spelling lines '\n' ['\n']
  | letter {c l : Char} (h : escaped? l = some c) : Spelling lines c ['\\', l]
  | code {c a b : Char} (h : charOfHex? ['0', '0', a, b] = some c) :
    Spelling lines c ['\\', 'u', '0', '0', a, b]

theorem hexDigit?_hexDigitUpper {n : Nat} (h : n < 16) : hexDigit? (hexDigitUpper n) = some n := by
  have hall : ∀ n < 16, hexDigit? (hexDigitUpper n) = some n := by decide +kernel
  exact hall n h

theorem charOfHex?_control (h : c.toNat < 128) :
    charOfHex? ['0', '0', hexDigitUpper (c.toNat / 16), hexDigitUpper (c.toNat % 16)] =
      some c := by
  have hhigh := hexDigit?_hexDigitUpper (n := c.toNat / 16) (by omega)
  have hlow := hexDigit?_hexDigitUpper (n := c.toNat % 16) (by omega)
  have hzero : hexDigit? '0' = some 0 := by decide
  have hdigits : ['0', '0', hexDigitUpper (c.toNat / 16), hexDigitUpper (c.toNat % 16)].mapM
      hexDigit? = some [0, 0, c.toNat / 16, c.toNat % 16] := by
    simp [List.mapM_cons, hhigh, hlow, hzero]
  have hnumber : [0, 0, c.toNat / 16, c.toNat % 16].foldl (fun n d => n * 16 + d) 0 = c.toNat := by
    simp only [List.foldl_cons, List.foldl_nil]
    omega
  have hchar : ∀ n, n = c.toNat →
      (if h : n.isValidChar then some (Char.ofNatAux n h) else none) = some c := by
    rintro n rfl
    exact dif_pos c.valid
  rw [charOfHex?, hdigits]
  exact hchar _ hnumber

theorem spelling_escapeControl (lines : Bool) (h : c.toNat < 32 ∨ c.toNat = 127) :
    Spelling lines c (escapeControl c) := by
  rw [escapeControl]
  by_cases hb : c = '\x08'
  · rw [if_pos hb, hb]
    exact .letter rfl
  by_cases ht : c = '\t'
  · rw [if_neg hb, if_pos ht, ht]
    exact .letter rfl
  by_cases hn : c = '\n'
  · rw [if_neg hb, if_neg ht, if_pos hn, hn]
    exact .letter rfl
  by_cases hf : c = '\x0c'
  · rw [if_neg hb, if_neg ht, if_neg hn, if_pos hf, hf]
    exact .letter rfl
  by_cases hr : c = '\r'
  · rw [if_neg hb, if_neg ht, if_neg hn, if_neg hf, if_pos hr, hr]
    exact .letter rfl
  rw [if_neg hb, if_neg ht, if_neg hn, if_neg hf, if_neg hr]
  exact .code (charOfHex?_control (by omega))

/-- The writer spells one character, or leaves a quote as it is where few stand in a row. -/
theorem basicBody_cons (lines : Bool) (limit run : Nat) (c : Char) (s : Text) :
    (∃ w, Spelling lines c w ∧
      basicBody lines limit run (c :: s) = w ++ basicBody lines limit 0 s) ∨
    (c = '"' ∧ run < limit ∧
      basicBody lines limit run (c :: s) = '"' :: basicBody lines limit (run + 1) s) := by
  rw [basicBody]
  by_cases hq : c = '"'
  · rw [if_pos hq]
    by_cases hrun : run < limit
    · exact .inr ⟨hq, hrun, if_pos hrun⟩
    · rw [if_neg hrun, hq]
      exact .inl ⟨['\\', '"'], .letter rfl, rfl⟩
  refine .inl ?_
  rw [if_neg hq]
  by_cases hb : c = '\\'
  · rw [if_pos hb, hb]
    exact ⟨['\\', '\\'], .letter rfl, rfl⟩
  rw [if_neg hb]
  by_cases hn : (c = '\n' && lines) = true
  · rw [if_pos hn]
    simp only [Bool.and_eq_true, decide_eq_true_eq] at hn
    rw [hn.1]
    exact ⟨['\n'], .lineFeed hn.2, rfl⟩
  rw [if_neg hn]
  by_cases hctl : (c.toNat < 32 || c.toNat = 127) = true
  · rw [if_pos hctl]
    simp only [Bool.or_eq_true, decide_eq_true_eq] at hctl
    exact ⟨escapeControl c, spelling_escapeControl lines hctl, rfl⟩
  · rw [if_neg hctl]
    simp only [Bool.or_eq_true, decide_eq_true_eq, not_or] at hctl
    refine ⟨[c], .self ?_ hq hb, rfl⟩
    simp only [isPrintable, Bool.or_eq_true, Bool.and_eq_true, decide_eq_true_eq]
    exact .inr ⟨by omega, hctl.2⟩

/-! ## What a spelling says -/

theorem Spelling.starts {lines : Bool} (h : Spelling lines c w) : ∃ d v, w = d :: v ∧ d ≠ '"' ∧
    d ≠ '\r' ∧ (d = '\n' → c = '\n') := by
  cases h with
  | self hc hq hb => exact ⟨c, [], rfl, hq, (ne_of_isPrintable hc).2, id⟩
  | lineFeed => exact ⟨'\n', [], rfl, by decide, by decide, fun _ => rfl⟩
  | letter => exact ⟨'\\', _, rfl, by decide, by decide, fun h => absurd h (by decide)⟩
  | code => exact ⟨'\\', _, rfl, by decide, by decide, fun h => absurd h (by decide)⟩

theorem Spelling.unescape? (h : Spelling false c w) (x : Text) :
    unescape? (w ++ x) = prepend (some c) (Toml.unescape? x) := by
  cases h with
  | self hc hq hb => simp [Toml.unescape?, hb, hc]
  | lineFeed h => cases h
  | letter h =>
    rename_i l
    unfold escaped? at h
    split at h <;> cases h <;> rfl
  | code h =>
    rw [← h]
    rfl

theorem Spelling.unescapeLines? (h : Spelling true c w) (x : Text) :
    unescapeLines? .content (w ++ x) = prepend (some c) (Toml.unescapeLines? .content x) := by
  cases h with
  | self hc hq hb =>
    have hr := (ne_of_isPrintable hc).2
    simp [Toml.unescapeLines?, hb, hc, hr]
  | lineFeed h => simp [Toml.unescapeLines?]
  | letter h =>
    rename_i l
    unfold escaped? at h
    split at h <;> cases h <;> simp [Toml.unescapeLines?, escaped?]
  | code h =>
    rw [← h]
    simp [Toml.unescapeLines?]

theorem unescape?_basicBody (limit : Nat) (s : Text) :
    ∀ run, unescape? (basicBody false limit run s) = some s := by
  induction s with
  | nil => exact fun _ => rfl
  | cons c s ih =>
    intro run
    rcases basicBody_cons false limit run c s with ⟨w, hw, hbody⟩ | ⟨rfl, -, hbody⟩
    · rw [hbody, hw.unescape?, ih]
      rfl
    · rw [hbody]
      simp [Toml.unescape?, ih, isPrintable, prepend]

theorem unescapeLines?_basicBody (limit : Nat) (s : Text) :
    ∀ run, unescapeLines? .content (basicBody true limit run s) = some s := by
  induction s with
  | nil => exact fun _ => rfl
  | cons c s ih =>
    intro run
    rcases basicBody_cons true limit run c s with ⟨w, hw, hbody⟩ | ⟨rfl, -, hbody⟩
    · rw [hbody, hw.unescapeLines?, ih]
      rfl
    · rw [hbody]
      simp [Toml.unescapeLines?, ih, isPrintable, prepend]

/-! ## Where basic strings end -/

theorem spanBasic_cons (hq : c ≠ '"') (hn : c ≠ '\n') (hb : c ≠ '\\') :
    spanBasic (c :: x) = (spanBasic x).after [c] :=
  spanBasic.eq_6 c x hq hn (fun _ h => absurd h hb) (fun _ h => absurd h hb)

theorem spanBasicLines_cons (hq : c ≠ '"') (hb : c ≠ '\\') :
    spanBasicLines (c :: x) = (spanBasicLines x).after [c] :=
  spanBasicLines.eq_7 c x (fun _ h => absurd h hq) (fun _ h => absurd h hq)
    (fun _ h => absurd h hq) (fun _ h => absurd h hb) (fun _ h => absurd h hb)

/-- A hexadecimal digit ends no string and escapes nothing. -/
theorem ne_of_hexDigit? {d : Char} (h : hexDigit? d ≠ none) : d ≠ '"' ∧ d ≠ '\n' ∧ d ≠ '\\' := by
  refine ⟨?_, ?_, ?_⟩ <;> rintro rfl <;> exact h (by decide)

theorem hexDigit?_of_charOfHex? {a b : Char} (h : charOfHex? ['0', '0', a, b] = some c) :
    hexDigit? a ≠ none ∧ hexDigit? b ≠ none := by
  constructor
  · intro ha
    simp [charOfHex?, ha] at h
  · intro hb
    simp [charOfHex?, hb] at h

theorem Spelling.spanBasic (h : Spelling false c w) (x : Text) :
    spanBasic (w ++ x) = (Toml.spanBasic x).after w := by
  cases h with
  | self hc hq hb => exact spanBasic_cons hq (ne_of_isPrintable hc).1 hb
  | lineFeed h => cases h
  | letter h =>
    unfold escaped? at h
    split at h <;> cases h <;> simp [Toml.spanBasic, Span.after_after]
  | code h =>
    obtain ⟨ha, hb⟩ := hexDigit?_of_charOfHex? h
    obtain ⟨haq, han, hab⟩ := ne_of_hexDigit? ha
    obtain ⟨hbq, hbn, hbb⟩ := ne_of_hexDigit? hb
    simp [Toml.spanBasic, Span.after_after, *]

theorem Spelling.spanBasicLines (h : Spelling true c w) (x : Text) :
    spanBasicLines (w ++ x) = (Toml.spanBasicLines x).after w := by
  cases h with
  | self hc hq hb => exact spanBasicLines_cons hq hb
  | lineFeed h => exact spanBasicLines_cons (by decide) (by decide)
  | letter h =>
    unfold escaped? at h
    split at h <;> cases h <;> simp [Toml.spanBasicLines, Span.after_after]
  | code h =>
    obtain ⟨ha, hb⟩ := hexDigit?_of_charOfHex? h
    obtain ⟨haq, -, hab⟩ := ne_of_hexDigit? ha
    obtain ⟨hbq, -, hbb⟩ := ne_of_hexDigit? hb
    simp [Toml.spanBasicLines, Span.after_after, *]

theorem spanBasic_body (s r : Text) :
    ∀ run, spanBasic (basicBody false 0 run s ++ '"' :: r) =
      (some (basicBody false 0 run s), r) := by
  induction s with
  | nil => exact fun _ => rfl
  | cons c s ih =>
    intro run
    rcases basicBody_cons false 0 run c s with ⟨w, hw, hbody⟩ | ⟨-, hrun, -⟩
    · rw [hbody, List.append_assoc, hw.spanBasic, ih]
      rfl
    · exact absurd hrun (Nat.not_lt_zero run)

/-- Where a body starts with a quote, the writer left one of the text as it is. -/
theorem basicBody_eq_quote {lines : Bool} {limit run : Nat} {t : Text}
    (h : basicBody lines limit run s = '"' :: t) :
    run < limit ∧ ∃ s', t = basicBody lines limit (run + 1) s' := by
  cases s with
  | nil => cases h
  | cons c s =>
    rcases basicBody_cons lines limit run c s with ⟨w, hw, hbody⟩ | ⟨-, hrun, hbody⟩
    · obtain ⟨d, v, rfl, hd, -⟩ := hw.starts
      rw [hbody, List.cons_append, List.cons.injEq] at h
      exact absurd h.1 hd
    · rw [hbody, List.cons.injEq] at h
      exact ⟨hrun, s, h.2.symm⟩

/-- One more quote in front of a text that is closed with three. A quote that two others do not
follow closes nothing, and up to two before the closing ones belong to the text. -/
theorem span_quote {q : Char} {span : Text → Span} {t : Text}
    (hone : ∀ x, (∀ y, x ≠ q :: q :: y) → span (q :: x) = (span x).after [q])
    (hfour : span (q :: q :: q :: q :: r) = (some [q], r))
    (hfive : span (q :: q :: q :: q :: q :: r) = (some [q, q], r))
    (ht : ∀ y, t ≠ q :: q :: y) (h : span (t ++ q :: q :: q :: r) = (some t, r)) :
    span (q :: t ++ q :: q :: q :: r) = (some (q :: t), r) := by
  match t with
  | [] => exact hfour
  | [d] =>
    by_cases hd : d = q
    · rw [hd]
      exact hfive
    · rw [List.cons_append, hone _ (by simp [hd]), h]
      rfl
  | d :: e :: t =>
    rw [List.cons_append, hone _ fun y hy => ht t ?_, h]
    · rfl
    · simp only [List.cons_append, List.cons.injEq] at hy
      rw [hy.1, hy.2.1]

theorem spanBasicLines_quote {t : Text} (hr : ∀ y, r ≠ '"' :: y) (ht : ∀ y, t ≠ '"' :: '"' :: y)
    (h : spanBasicLines (t ++ '"' :: '"' :: '"' :: r) = (some t, r)) :
    spanBasicLines ('"' :: t ++ '"' :: '"' :: '"' :: r) = (some ('"' :: t), r) :=
  span_quote (fun x hx => spanBasicLines.eq_7 '"' x (fun _ _ => hx _) (fun _ _ => hx _)
    (fun _ _ => hx _) (fun _ h => absurd h (by decide)) (fun _ h => absurd h (by decide)))
    (spanBasicLines.eq_3 r hr) (spanBasicLines.eq_2 r) ht h

theorem spanBasicLines_body (s : Text) (hr : ∀ y, r ≠ '"' :: y) :
    ∀ run, spanBasicLines (basicBody true 2 run s ++ '"' :: '"' :: '"' :: r) =
      (some (basicBody true 2 run s), r) := by
  induction s with
  | nil => exact fun _ => spanBasicLines.eq_4 r (fun _ => hr _) hr
  | cons c s ih =>
    intro run
    rcases basicBody_cons true 2 run c s with ⟨w, hw, hbody⟩ | ⟨-, hrun, hbody⟩
    · rw [hbody, List.append_assoc, hw.spanBasicLines, ih]
      rfl
    · rw [hbody]
      refine spanBasicLines_quote hr (fun y hy => ?_) (ih (run + 1))
      -- the third quote in a row is escaped
      obtain ⟨-, s', hs'⟩ := basicBody_eq_quote hy
      obtain ⟨hrun, -⟩ := basicBody_eq_quote hs'.symm
      omega

/-! ## Where literal strings end -/

theorem spanLiteralLines_cons (hq : c ≠ '\'') :
    spanLiteralLines (c :: x) = (spanLiteralLines x).after [c] :=
  spanLiteralLines.eq_5 c x (fun _ h => absurd h hq) (fun _ h => absurd h hq)
    (fun _ h => absurd h hq)

theorem spanLiteralLines_quote {t : Text} (hr : ∀ y, r ≠ '\'' :: y)
    (ht : ∀ y, t ≠ '\'' :: '\'' :: y)
    (h : spanLiteralLines (t ++ '\'' :: '\'' :: '\'' :: r) = (some t, r)) :
    spanLiteralLines ('\'' :: t ++ '\'' :: '\'' :: '\'' :: r) = (some ('\'' :: t), r) :=
  span_quote (fun x hx => spanLiteralLines.eq_5 '\'' x (fun _ _ => hx _) (fun _ _ => hx _)
    (fun _ _ => hx _)) (spanLiteralLines.eq_3 r hr) (spanLiteralLines.eq_2 r) ht h

theorem spanLiteralLines_append (hs : ¬ List.replicate 3 '\'' <:+: s) (hr : ∀ y, r ≠ '\'' :: y) :
    spanLiteralLines (s ++ '\'' :: '\'' :: '\'' :: r) = (some s, r) := by
  induction s with
  | nil => exact spanLiteralLines.eq_4 r (fun _ => hr _) hr
  | cons c s ih =>
    obtain ⟨hfront, hs⟩ := not_or.1 (mt List.infix_cons_iff.2 hs)
    by_cases hc : c = '\''
    · rw [hc]
      refine spanLiteralLines_quote hr (fun y hy => hfront ?_) (ih hs)
      rw [hc, hy]
      exact ⟨y, rfl⟩
    · rw [List.cons_append, spanLiteralLines_cons hc, ih hs]
      rfl

/-! ## Runs of quotes -/

/-- One step in finding the longest run: the current run and the longest so far. -/
def runStep (q : Char) (x : Nat × Nat) (c : Char) : Nat × Nat :=
  if c = q then (x.1 + 1, max x.2 (x.1 + 1)) else (0, x.2)

theorem longestRun_eq (q : Char) (s : Text) : longestRun q s = (s.foldl (runStep q) (0, 0)).2 := rfl

theorem le_foldl_runStep (q : Char) (s : Text) (x : Nat × Nat) :
    x.2 ≤ (s.foldl (runStep q) x).2 := by
  induction s generalizing x with
  | nil => exact Nat.le_refl _
  | cons c s ih =>
    have hstep : x.2 ≤ (runStep q x c).2 := by
      rw [runStep]
      split
      · exact Nat.le_max_left _ _
      · exact Nat.le_refl _
    exact Nat.le_trans hstep (ih _)

theorem foldl_runStep_replicate (q : Char) (k : Nat) (x : Nat × Nat) :
    ((List.replicate k q).foldl (runStep q) x).1 = x.1 + k ∧
      (0 < k → x.1 + k ≤ ((List.replicate k q).foldl (runStep q) x).2) := by
  induction k generalizing x with
  | zero => exact ⟨rfl, fun h => absurd h (Nat.lt_irrefl 0)⟩
  | succ k ih =>
    have hstep : runStep q x q = (x.1 + 1, max x.2 (x.1 + 1)) := if_pos rfl
    obtain ⟨h1, h2⟩ := ih (runStep q x q)
    rw [List.replicate_succ, List.foldl_cons]
    rw [hstep] at h1 h2 ⊢
    refine ⟨by omega, fun _ => ?_⟩
    by_cases hk : 0 < k
    · have := h2 hk
      omega
    · have hlast := le_foldl_runStep q (List.replicate k q) (x.1 + 1, max x.2 (x.1 + 1))
      have hmax : x.1 + 1 ≤ max x.2 (x.1 + 1) := Nat.le_max_right _ _
      omega

theorem le_longestRun {q : Char} {k : Nat} (h : List.replicate k q <:+: s) :
    k ≤ longestRun q s := by
  obtain ⟨a, b, rfl⟩ := h
  rw [longestRun_eq, List.foldl_append, List.foldl_append]
  generalize a.foldl (runStep q) (0, 0) = x
  obtain ⟨-, hrun⟩ := foldl_runStep_replicate q k x
  have hb := le_foldl_runStep q b ((List.replicate k q).foldl (runStep q) x)
  by_cases hk : 0 < k
  · have := hrun hk
    omega
  · omega

theorem not_mem_of_longestRun {q : Char} (h : longestRun q s = 0) : q ∉ s := by
  intro hq
  obtain ⟨a, b, rfl⟩ := List.append_of_mem hq
  have := le_longestRun (q := q) (k := 1) (s := a ++ q :: b) ⟨a, b, by simp⟩
  omega

/-! ## Strings -/

theorem readString?_basic (s : Text) (hr : ∀ y, r ≠ '"' :: y) :
    readString? (basic s ++ r) = some (.ok s, r) := by
  have hs : basic s ++ r = '"' :: (basicBody false 0 0 s ++ '"' :: r) := by simp [basic]
  have hthree : ∀ y, basicBody false 0 0 s ++ '"' :: r ≠ '"' :: '"' :: y := by
    intro y hy
    cases hbody : basicBody false 0 0 s with
    | nil =>
      rw [hbody, List.nil_append, List.cons.injEq] at hy
      exact hr y hy.2
    | cons d t =>
      rw [hbody, List.cons_append, List.cons.injEq] at hy
      rw [hy.1] at hbody
      exact absurd (basicBody_eq_quote hbody).1 (Nat.not_lt_zero 0)
  rw [hs, readString?.eq_3 _ (fun y h => hthree y (List.cons.inj h).2)
    (fun _ h => absurd (List.cons.inj h).1 (by decide)), readQuoted?, spanBasic_body, Span.read,
    Option.bind_some, unescape?_basicBody]
  rfl

/-- A line end that the writer puts behind the opening quotes does not count, and a text that is
written without one does not start with a line end. -/
theorem dropLineEnd_opening {t : Text}
    (h : '\n' ∉ s → ∀ c y, t = c :: y → c ≠ '\n' ∧ c ≠ '\r') :
    dropLineEnd (opening s ++ t) = t := by
  rw [opening]
  by_cases hn : s.contains '\n'
  · rw [if_pos hn]
    rfl
  · rw [if_neg hn, List.nil_append]
    have h := h fun hm => hn (List.contains_iff_mem.2 hm)
    exact dropLineEnd.eq_3 t (fun y hy => (h _ y hy).1 rfl) (fun y hy => (h _ _ hy).2 rfl)

theorem Span.after_nil (y : Span) : y.after [] = y := by
  obtain ⟨body, r⟩ := y
  cases body <;> rfl

theorem span_opening {span : Text → Span} (x : Text)
    (h : span ('\n' :: x) = (span x).after ['\n']) (s : Text) :
    span (opening s ++ x) = (span x).after (opening s) := by
  rw [opening]
  split
  · exact h
  · exact (Span.after_nil _).symm

theorem readString?_basicLines (s : Text) (hr : ∀ y, r ≠ '"' :: y) :
    readString? (basicLines s ++ r) = some (.ok s, r) := by
  have hs : basicLines s ++ r = '"' :: '"' :: '"' ::
      (opening s ++ (basicBody true 2 0 s ++ '"' :: '"' :: '"' :: r)) := by
    simp [basicLines]
  have hdrop : dropLineEnd (opening s ++ basicBody true 2 0 s) = basicBody true 2 0 s := by
    refine dropLineEnd_opening fun hn c y hy => ?_
    cases s with
    | nil => cases hy
    | cons d s =>
      rcases basicBody_cons true 2 0 d s with ⟨w, hw, hbody⟩ | ⟨-, -, hbody⟩
      · obtain ⟨e, v, rfl, -, her, hen⟩ := hw.starts
        rw [hbody, List.cons_append, List.cons.injEq] at hy
        rw [← hy.1]
        exact ⟨fun he => hn (by simp [hen he]), her⟩
      · rw [hbody, List.cons.injEq] at hy
        rw [← hy.1]
        decide
  rw [hs, readString?, span_opening _ (spanBasicLines_cons (by decide) (by decide)) s,
    spanBasicLines_body s hr]
  show some (orMalformed (unescapeLines? .content (dropLineEnd (opening s ++ _))), r) = _
  rw [hdrop, unescapeLines?_basicBody]
  rfl

theorem isLines_of_forall (h : ∀ c ∈ s, isPrintable c = true ∨ c = '\n') : isLines s = true := by
  induction s with
  | nil => rfl
  | cons c s ih =>
    obtain ⟨hc, hs⟩ := List.forall_mem_cons.1 h
    have hr : c ≠ '\r' := by
      rcases hc with hc | rfl
      · exact (ne_of_isPrintable hc).2
      · decide
    rw [isLines.eq_3 c s fun _ hcr => absurd hcr hr, ih hs, Bool.and_true, Bool.or_eq_true,
      decide_eq_true_eq]
    exact hc

theorem readString?_literalLines (h : ∀ c ∈ s, isPrintable c = true ∨ c = '\n')
    (hthree : ¬ List.replicate 3 '\'' <:+: s) (hr : ∀ y, r ≠ '\'' :: y) :
    readString? (literalLines s ++ r) = some (.ok s, r) := by
  have hs : literalLines s ++ r = '\'' :: '\'' :: '\'' ::
      (opening s ++ (s ++ '\'' :: '\'' :: '\'' :: r)) := by
    simp [literalLines]
  have hdrop : dropLineEnd (opening s ++ s) = s := by
    refine dropLineEnd_opening fun hn c y hy => ?_
    have hc : c ∈ s := hy ▸ List.mem_cons_self
    rcases h c hc with hc | rfl
    · exact ne_of_isPrintable hc
    · exact absurd hc hn
  rw [hs, readString?, span_opening _ (spanLiteralLines_cons (by decide)) s,
    spanLiteralLines_append hthree hr]
  show some (orMalformed (literalLines? (dropLineEnd (opening s ++ s))), r) = _
  rw [hdrop, literalLines?, if_pos (isLines_of_forall h)]
  rfl

/-- A text in the notation chosen for it is read back, whatever follows but a quote. -/
theorem readString?_quote (s : Text) (hd : ∀ y, r ≠ '"' :: y) (hs : ∀ y, r ≠ '\'' :: y) :
    readString? (quote s ++ r) = some (.ok s, r) := by
  have hprint : s.any needsEscape = false → ∀ c ∈ s, isPrintable c = true ∨ c = '\n' := by
    intro h c hc
    by_cases hn : c = '\n'
    · exact .inr hn
    · exact .inl (isPrintable_of_not_needsEscape (by simpa using List.any_eq_false.1 h c hc) hn)
  rw [quote]
  split
  · exact readString?_basic s hd
  rename_i hbasic
  split
  · rename_i hliteral
    simp only [Bool.and_eq_true, Bool.not_eq_true', decide_eq_true_eq] at hliteral
    obtain ⟨⟨hcontrols, hsingles⟩, hlines⟩ := hliteral
    have hne : s ≠ [] := by
      rintro rfl
      exact hbasic (by decide)
    have hall : ∀ c ∈ s, isPrintable c = true ∧ c ≠ '\'' := by
      intro c hc
      refine ⟨(hprint hcontrols c hc).resolve_right ?_, ?_⟩
      · rintro rfl
        simp [hc] at hlines
      · rintro rfl
        exact not_mem_of_longestRun hsingles hc
    have := readString?_literal (r := r) hall hne
    rw [literal, List.append_assoc]
    exact this
  split
  · exact readString?_basicLines s hd
  split
  · rename_i hliteral
    simp only [Bool.and_eq_true, Bool.not_eq_true', decide_eq_true_eq] at hliteral
    obtain ⟨hcontrols, hsingles⟩ := hliteral
    refine readString?_literalLines (hprint hcontrols) (fun hthree => ?_) hs
    have := le_longestRun hthree
    omega
  split
  · exact readString?_basicLines s hd
  · exact readString?_basic s hd

end BBCode.Toml
