import BBCode.Proofs.Tag.Grammar
import BBCode.Proofs.Text.Bytes
import Mathlib.Data.List.Chain

/-!
# BBCode.Proofs.Tag.Scan

The scanner accepts its grammar and nothing else. `Decomposes` says, without tokens and without
joining, which tags a text falls into: where a tag is spelled it is one, and any other character
belongs to a text token, which runs as far as it can.

Main statement: `scan_exact`, the tags of a text are its only decomposition; their spans
follow one another from the first byte to the last, no two text tokens stand side by side, and
each token read by itself is that token again.
-/

namespace BBCode

namespace Tag

/-- Whether this is text. -/
def isText : Tag → Bool
  | text _ => true
  | _ => false

/-- Some tag is spelled at the front of a text. -/
def Spelled (s : Text) : Prop := ∃ t : Tag, t.WellSpelled ∧ ∃ r, s = t.source ++ r

/-- The tags and the text tokens that a text falls into from the left. -/
inductive Decomposes : Text → List Tag → Prop
  | done : Decomposes [] []
  | tag {t : Tag} {r : Text} {ts : List Tag} (ht : t.WellSpelled) (rest : Decomposes r ts) :
      Decomposes (t.source ++ r) (t :: ts)
  | first {c : Char} {s : Text} {ts : List Tag} (hc : ¬ Spelled (c :: s))
      (hts : ∀ t ∈ ts.head?, t.isText = false) (rest : Decomposes s ts) :
      Decomposes (c :: s) (text [c] :: ts)
  | next {c : Char} {s run : Text} {ts : List Tag} (hc : ¬ Spelled (c :: s))
      (rest : Decomposes s (text run :: ts)) : Decomposes (c :: s) (text (c :: run) :: ts)

/-! ## Tags read and tags spelled -/

theorem wellSpelled_of_read {s r : Text} {t : Tag} (h : readTag? s = some (t, r)) :
    t.WellSpelled := by
  unfold readTag? at h
  split at h
  · rename_i s
    unfold readClosing? at h
    split at h
    · cases h
    · rename_i hn
      simp only [Option.map_eq_some_iff, Prod.mk.injEq] at h
      obtain ⟨_, _, rfl, _⟩ := h
      exact isName_nameOf (by simpa using hn)
  · rename_i s _
    unfold readOpening? at h
    split at h
    · cases h
    · rename_i hn
      have hname : isName (nameOf s) = true := isName_nameOf (by simpa using hn)
      split at h
      · cases h
        exact hname
      · split at h
        · simp only [Option.map_eq_some_iff, Prod.mk.injEq] at h
          obtain ⟨⟨b, m, r⟩, hb, rfl, _⟩ := h
          exact ⟨hname, not_mem_of_nearest? hb⟩
        · cases h
  · cases h

theorem readTag?_eq_some {s r : Text} {t : Tag} :
    readTag? s = some (t, r) ↔ t.WellSpelled ∧ s = t.source ++ r := by
  constructor
  · exact fun h => ⟨wellSpelled_of_read h, (readTag?_source h).1⟩
  · rintro ⟨ht, rfl⟩
    exact readTag?_append ht r

theorem readTag?_eq_none {s : Text} : readTag? s = none ↔ ¬ Spelled s := by
  rw [Option.eq_none_iff_forall_ne_some]
  constructor
  · rintro h ⟨t, ht, r, hs⟩
    exact h (t, r) (readTag?_eq_some.2 ⟨ht, hs⟩)
  · rintro h ⟨t, r⟩ hr
    obtain ⟨ht, hs⟩ := readTag?_eq_some.1 hr
    exact h ⟨t, ht, r, hs⟩

/-- A tag spelled in a part of a text from its front is spelled in the text. -/
theorem Spelled.append {s : Text} (h : Spelled s) (r : Text) : Spelled (s ++ r) := by
  obtain ⟨t, ht, q, rfl⟩ := h
  exact ⟨t, ht, q ++ r, by simp⟩

/-! ## The scanner, one tag or one character at a time -/

@[simp] theorem scan_nil : scan [] = [] := by
  simp [scan, Token.lex, ofPieces]

theorem scan_tag {t : Tag} (ht : t.WellSpelled) (r : Text) : scan (t.source ++ r) = t :: scan r :=
  scan_of_read (readTag?_append ht r)

theorem scan_char {c : Char} {s : Text} (hc : ¬ Spelled (c :: s)) :
    scan (c :: s) = joinText [c] (scan s) := by
  have hread : grammar.read? (c :: s) = none := readTag?_eq_none.2 hc
  rw [scan_eq_ofChars, Pattern.pieces_of_not_read hread, ofChars, ← scan_eq_ofChars]

theorem joinText_of_not_text {ts : List Tag} (h : ∀ t ∈ ts.head?, t.isText = false) (s : Text) :
    joinText s ts = text s :: ts := by
  cases ts with
  | nil => rfl
  | cons t ts =>
    cases t with
    | text run => cases h _ rfl
    | opening n p => rfl
    | closing n => rfl

/-- No tag starts in a text without brackets. -/
theorem scan_plain {s : Text} (hs : '[' ∉ s) (hne : s ≠ []) (r : Text) :
    scan (s ++ r) = joinText s (scan r) := by
  induction s with
  | nil => exact absurd rfl hne
  | cons c s ih =>
    rw [List.mem_cons, not_or] at hs
    have hc : ¬ Spelled (c :: (s ++ r)) :=
      readTag?_eq_none.1 (readTag?_of_ne (Ne.symm hs.1) (s ++ r))
    rw [List.cons_append, scan_char hc]
    by_cases hnil : s = []
    · rw [hnil]
      rfl
    · rw [ih hs.2 hnil, joinText_joinText]
      rfl

/-- A text has no other decomposition than the one that the scanner finds. -/
theorem Decomposes.eq_scan {s : Text} {ts : List Tag} (h : Decomposes s ts) : ts = scan s := by
  induction h with
  | done => rw [scan_nil]
  | tag ht _ ih => rw [scan_tag ht, ih]
  | first hc hts _ ih => rw [scan_char hc, ← ih, joinText_of_not_text hts]
  | next hc _ ih => rw [scan_char hc, ← ih]; rfl

theorem decomposes_joinText {c : Char} {s : Text} {ts : List Tag} (hc : ¬ Spelled (c :: s))
    (h : Decomposes s ts) : Decomposes (c :: s) (joinText [c] ts) := by
  cases ts with
  | nil => exact .first hc (by simp) h
  | cons t ts =>
    cases t with
    | text run => exact .next hc h
    | opening n p => exact .first hc (by simp [isText]) h
    | closing n => exact .first hc (by simp [isText]) h

/-- What the scanner finds is a decomposition. -/
theorem decomposes (s : Text) : Decomposes s (scan s) := by
  induction hlen : s.length using Nat.strongRecOn generalizing s with
  | ind len ih =>
    subst hlen
    cases s with
    | nil =>
      rw [scan_nil]
      exact .done
    | cons c s =>
      by_cases hc : Spelled (c :: s)
      · obtain ⟨t, ht, r, hs⟩ := hc
        have hr : r.length < (c :: s).length := readTag?_length (readTag?_eq_some.2 ⟨ht, hs⟩)
        rw [hs, scan_tag ht]
        exact .tag ht (ih r.length hr r rfl)
      · rw [scan_char hc]
        exact decomposes_joinText hc (ih s.length (Nat.lt_succ_self _) s rfl)

/-! ## What a decomposition looks like -/

theorem Decomposes.source_ne_nil {s : Text} {ts : List Tag} (h : Decomposes s ts) :
    ∀ t ∈ ts, t.source ≠ [] := by
  induction h with
  | done => simp
  | @tag t _ _ ht _ ih =>
    have hne := (readTag?_source (readTag?_append ht [])).2
    simpa [hne] using ih
  | first _ _ _ ih => simpa [source] using ih
  | next _ _ ih =>
    rw [List.forall_mem_cons] at ih ⊢
    exact ⟨by simp [source], ih.2⟩

theorem Decomposes.isChain {s : Text} {ts : List Tag} (h : Decomposes s ts) :
    ts.IsChain fun a b => ¬ (a.isText = true ∧ b.isText = true) := by
  induction h with
  | done => simp
  | @tag t r ts ht _ ih =>
    have hnot : t.isText = false := by cases t <;> first | rfl | cases ht
    exact List.isChain_cons.2 ⟨by simp [hnot], ih⟩
  | first _ hts _ ih => exact List.isChain_cons.2 ⟨fun t ht => by simp [hts t ht], ih⟩
  | next _ _ ih =>
    rw [List.isChain_cons] at ih ⊢
    exact ⟨fun t ht => by simpa [isText] using ih.1 t ht, ih.2⟩

theorem Decomposes.flatMap_source {s : Text} {ts : List Tag} (h : Decomposes s ts) :
    ts.flatMap source = s := by
  rw [h.eq_scan, flatMap_source_scan]

/-- Every token is read again where nothing else stands. -/
theorem Decomposes.scan_source {s : Text} {ts : List Tag} (h : Decomposes s ts) :
    ∀ t ∈ ts, scan t.source = [t] := by
  induction h with
  | done => simp
  | @tag t r _ ht _ ih =>
    have hself : scan t.source = [t] := by simpa [scan_nil] using scan_tag ht []
    simpa [hself] using ih
  | @first c s ts hc hts _ ih =>
    have hself : scan [c] = [text [c]] := by
      rw [scan_char fun hspelled => hc (by simpa using hspelled.append s), scan_nil]
      rfl
    simpa [source, hself] using ih
  | @next c s run ts hc rest ih =>
    rw [List.forall_mem_cons] at ih ⊢
    refine ⟨?_, ih.2⟩
    -- a tag in the run would stand in the whole text as well
    have hs : run ++ ts.flatMap source = s := rest.flatMap_source
    have hrun : ¬ Spelled (c :: run) := fun hspelled =>
      hc (by simpa [hs] using hspelled.append (ts.flatMap source))
    have ih : scan run = [text run] := ih.1
    show scan (c :: run) = _
    rw [scan_char hrun, ih]
    rfl

/-- A decomposition can be cut in front of a tag. What stands before the cut and what stands behind
it fall into the same tags without the other. -/
theorem Decomposes.cut {s : Text} {ts us : List Tag} (h : Decomposes s (ts ++ us))
    (hus : ∀ u ∈ us.head?, u.isText = false) :
    Decomposes (ts.flatMap source) ts ∧ Decomposes (us.flatMap source) us := by
  generalize hall : ts ++ us = all at h
  induction h generalizing ts with
  | done =>
    obtain ⟨rfl, rfl⟩ := List.append_eq_nil_iff.1 hall
    exact ⟨.done, .done⟩
  | tag ht rest ih =>
    cases ts with
    | nil =>
      obtain rfl : us = _ := hall
      rw [(Decomposes.tag ht rest).flatMap_source]
      exact ⟨.done, .tag ht rest⟩
    | cons t ts =>
      rw [List.cons_append, List.cons.injEq] at hall
      obtain ⟨rfl, hall⟩ := hall
      exact ⟨.tag ht (ih hall).1, (ih hall).2⟩
  | @first c s _ hc hts rest ih =>
    cases ts with
    | nil =>
      obtain rfl : us = _ := hall
      cases hus _ rfl
    | cons t ts =>
      rw [List.cons_append, List.cons.injEq] at hall
      obtain ⟨rfl, rfl⟩ := hall
      obtain ⟨hfirst, hsecond⟩ := ih rfl
      refine ⟨.first (fun hspelled => hc ?_) (fun t ht => hts t ?_) hfirst, hsecond⟩
      · rw [← rest.flatMap_source, List.flatMap_append]
        exact hspelled.append _
      · cases ts with
        | nil => cases ht
        | cons _ _ => exact ht
  | @next c s run _ hc rest ih =>
    cases ts with
    | nil =>
      obtain rfl : us = _ := hall
      cases hus _ rfl
    | cons t ts =>
      rw [List.cons_append, List.cons.injEq] at hall
      obtain ⟨rfl, rfl⟩ := hall
      obtain ⟨hfirst, hsecond⟩ := @ih (text run :: ts) rfl
      refine ⟨.next (fun hspelled => hc ?_) hfirst, hsecond⟩
      -- a tag spelled in the front part would stand in the whole text as well
      rw [← rest.flatMap_source, ← List.cons_append, List.flatMap_append]
      exact hspelled.append _

/-- The tags before a tag are the tags of the text before it, and the tags from it on are those of
the text from it on. -/
theorem scan_cut {s : Text} {ts us : List Tag} (h : scan s = ts ++ us)
    (hus : ∀ u ∈ us.head?, u.isText = false) :
    scan (ts.flatMap source) = ts ∧ scan (us.flatMap source) = us := by
  have hs := decomposes s
  rw [h] at hs
  obtain ⟨h1, h2⟩ := hs.cut hus
  exact ⟨h1.eq_scan.symm, h2.eq_scan.symm⟩

/-- The scanner finds the one decomposition of a text. Its spans follow one another from the
first byte to the last and are cut between characters, no two text tokens stand side by side, and
each token read by itself is that token again. -/
theorem scan_exact (s : Text) :
    (∀ ts, Decomposes s ts ↔ ts = scan s) ∧
      (withSpans source 0 (scan s)).map Prod.fst = scan s ∧
      EndToEnd 0 (Text.toBytes s).length (withSpans source 0 (scan s)) ∧
      (∀ x ∈ withSpans source 0 (scan s), ∃ before after, s = before ++ x.1.source ++ after ∧
        x.2 = ⟨(Text.toBytes before).length, (Text.toBytes (before ++ x.1.source)).length⟩) ∧
      ((scan s).IsChain fun a b => ¬ (a.isText = true ∧ b.isText = true)) ∧
      ∀ t ∈ scan s, scan t.source = [t] := by
  have hs := decomposes s
  refine ⟨fun ts => ⟨Decomposes.eq_scan, ?_⟩, map_fst_withSpans source 0 _, ?_, ?_, hs.isChain,
    hs.scan_source⟩
  · rintro rfl
    exact hs
  · have hspans := withSpans_endToEnd hs.source_ne_nil 0
    rwa [Nat.zero_add, flatMap_source_scan, ← Text.length_toBytes] at hspans
  · intro x hx
    obtain ⟨before, after, hsource, hspan⟩ := withSpans_at hx
    rw [flatMap_source_scan] at hsource
    simp only [Nat.zero_add, ← Text.length_toBytes] at hspan
    exact ⟨before, after, hsource, hspan⟩

end Tag

end BBCode
