import BBCode.Html
import BBCode.Proofs.Text.Seam
import BBCode.Rule.Table

/-!
# BBCode.Proofs.Card.Mark

What a rewriting can do to the numbers of hover cards. A number is found behind one of few words,
so its occurrences are followed by looking at those words alone. A word with no complete number
behind it could be made up to one by whatever is written there, so in the texts that are looked at
every such word is complete; then a rewriting that puts fixed markup between captured parts can
make no occurrence that was not in one of the parts.

* `Mark.append_of_stops`: nothing that starts in front of such markup goes on in it.
* `Mark.Wedge.part`: markup around a part holds what the part holds.
* `Mark.spares_fillFrom`: if one replacement makes no more occurrences than it is allowed to, all
  replacements of a pattern together do not.
-/

namespace BBCode.Card

/-- What stands in front of the number in a card and in the link to it. -/
def numberWords : List Text := ["<span id=\"qtip-".toList, "data-tooltip-id=\"qtip-".toList]

/-- None of the words starts in the text, and none runs into it. -/
def isClear (c : Text) : Bool :=
  (Html.cardPrefix :: numberWords).all fun w => avoids id w c && clashesAll id c w.tail

/-- What is looked for: a word with a certain text behind it. -/
structure Mark where
  word : Text
  mem_words : word ∈ Html.cardPrefix :: numberWords
  tail : Text
  /-- What makes an occurrence of the word complete, if it stands behind it. -/
  Done : Text → Prop
  /-- What is complete in front of such a character does not need it. -/
  Bars : Char → Prop
  done_append {v : Text} (z : Text) : Done v → Done (v ++ z)
  done_left {v z : Text} {c : Char} : Bars c → Done (v ++ c :: z) → Done v
  tail_left {v z : Text} : Done v → tail <+: v ++ z → tail <+: v
  bars {c : Char} : c.isDigit = false → c ≠ '"' → Bars c

namespace Mark

variable {T : Mark} {x y z s t : Text}

/-- Every occurrence of the word is complete. -/
def Holds (T : Mark) (s : Text) : Prop := ∀ v, T.word ++ v <:+ s → T.Done v

/-- What stands in front of the text is complete without it. -/
def Barred (T : Mark) (s : Text) : Prop := ∀ c ∈ s.head?, T.Bars c

def count (T : Mark) (s : Text) : Nat := occurrences id (T.word ++ T.tail) s

/-- A text that is rewritten to the other one gets no more occurrences. -/
def Spares (T : Mark) (s t : Text) : Prop := T.Holds s → T.Holds t ∧ T.count t ≤ T.count s

theorem barred_cons {c : Char} (hdigit : c.isDigit = false) (hquote : c ≠ '"') (s : Text) :
    T.Barred (c :: s) := by
  rintro d ⟨⟩
  exact T.bars hdigit hquote

theorem Barred.append (hx : T.Barred x) (hy : T.Barred y) : T.Barred (x ++ y) := by
  cases x with
  | nil => exact hy
  | cons c x => exact hx

theorem barred_breaks (h : Breaks s) : T.Barred s := by
  cases h with
  | nil => nofun
  | markup _ => exact barred_cons (by decide) (by decide) _
  | lineFeed _ => exact barred_cons (by decide) (by decide) _
  | carriageReturn _ => exact barred_cons (by decide) (by decide) _

theorem word_ne_nil (T : Mark) : T.word ≠ [] := by
  have hne : ∀ w ∈ Html.cardPrefix :: numberWords, w ≠ [] := by decide
  exact hne T.word T.mem_words

theorem Spares.refl (s : Text) : T.Spares s s := fun h => ⟨h, Nat.le_refl _⟩

theorem Spares.trans (h1 : T.Spares x y) (h2 : T.Spares y z) : T.Spares x z := by
  intro hx
  obtain ⟨hy, hle⟩ := h1 hx
  exact ⟨(h2 hy).1, Nat.le_trans (h2 hy).2 hle⟩

theorem Holds.of_suffix (h : T.Holds s) (ht : t <:+ s) : T.Holds t :=
  fun v hv => h v (hv.trans ht)

theorem Holds.left (h : T.Holds (x ++ y)) (hy : T.Barred y) : T.Holds x := by
  cases y with
  | nil => rwa [List.append_nil] at h
  | cons c y =>
    rintro v ⟨a, rfl⟩
    exact T.done_left (hy c rfl) (h (v ++ c :: y) ⟨a, by simp⟩)

theorem add_count_le (x y : Text) : T.count x + T.count y ≤ T.count (x ++ y) :=
  add_occurrences_le x y

theorem count_suffix (h : t <:+ s) : T.count t ≤ T.count s := by
  obtain ⟨a, rfl⟩ := h
  exact Nat.le_trans (Nat.le_add_left ..) (T.add_count_le a t)

theorem of_not_isInfix (h : ¬ T.word <:+: s) : T.Holds s ∧ T.count s = 0 := by
  refine ⟨fun v hv => absurd ((List.prefix_append T.word v).isInfix.trans hv.isInfix) h, ?_⟩
  rw [count, occurrences_eq_zero (by simp [T.word_ne_nil]), List.map_id]
  exact fun hi => h ((List.prefix_append T.word T.tail).isInfix.trans hi)

/-! ## Seams -/

/-- Where a word starts in front of a text that stops it, it ends there. -/
theorem eq_append_of_stops (hz : Stops id z T.word.tail) {c : Char} {v : Text}
    (h : T.word ++ v = c :: (x ++ (z ++ y))) :
    ∃ q, T.word ++ q = c :: x ∧ v = q ++ (z ++ y) := by
  have hread : readWord? id T.word (c :: (x ++ (z ++ y))) = some (T.word, v) := by
    rw [← h]
    exact readWord?_self_append (List.map_id _) v
  rw [readWord?_cons_append_of_stops hz] at hread
  simp only [Option.map_eq_some_iff, Prod.mk.injEq] at hread
  obtain ⟨⟨a, q⟩, hq, rfl, rfl⟩ := hread
  exact ⟨q, (readWord?_eq_some.1 hq).2.symm, rfl⟩

/-- Nothing that starts in front of a text that stops the word goes on in it. -/
theorem append_of_stops (hz : Stops id z T.word.tail) (hx : T.Holds x) (hy : T.Holds (z ++ y)) :
    T.Holds (x ++ (z ++ y)) ∧ T.count (x ++ (z ++ y)) ≤ T.count x + T.count (z ++ y) := by
  induction x with
  | nil => exact ⟨hy, Nat.le_add_left ..⟩
  | cons c x ih =>
    obtain ⟨hholds, hcount⟩ := ih (hx.of_suffix (List.suffix_cons c x))
    refine ⟨fun v hv => ?_, ?_⟩
    · rcases List.suffix_cons_iff.1 hv with heq | hv
      · obtain ⟨q, hq, rfl⟩ := eq_append_of_stops hz heq
        exact T.done_append _ (hx q ⟨[], hq⟩)
      · exact hholds v hv
    · -- the word in front of the markup is complete, so what follows it is there already
      have hfirst : (readWord? id (T.word ++ T.tail) (c :: (x ++ (z ++ y)))).isSome = true →
          (readWord? id (T.word ++ T.tail) (c :: x)).isSome = true := by
        rw [isSome_readWord?, isSome_readWord?, List.map_id, List.map_id]
        rintro ⟨b, hb⟩
        rw [List.append_assoc] at hb
        obtain ⟨q, hq, hrest⟩ := eq_append_of_stops hz hb
        obtain ⟨d, hd⟩ := T.tail_left (hx q ⟨[], hq⟩) ⟨b, hrest⟩
        exact ⟨d, by rw [← hq, ← hd, List.append_assoc]⟩
      simp only [count, List.cons_append, occurrences] at hcount ⊢
      split
      · rename_i h
        rw [if_pos (hfirst h)]
        omega
      · omega

theorem holds_append_of_skips (h : Skips (readWord? id T.word) z) (hy : T.Holds y) :
    T.Holds (z ++ y) := by
  intro v hv
  have hread := readWord?_self_append (List.map_id T.word) v
  exact hy v ((h.before y).suffix_of_read hv hread)

theorem count_append_of_skips (h : Skips (readWord? id T.word) z) (y : Text) :
    T.count (z ++ y) = T.count y := by
  refine occurrences_append_of_skips (h.imp fun s hs => ?_) y
  rw [← Option.not_isSome_iff_eq_none, isSome_readWord?] at hs ⊢
  exact fun hlong => hs ((List.prefix_append _ _).trans hlong)

/-- Markup that keeps what stands in front of it apart from what stands behind it, and makes
`n` occurrences of its own. -/
structure Wedge (T : Mark) (z : Text) (n : Nat) : Prop where
  stops : Stops id z T.word.tail
  holds : ∀ y, T.Holds y → T.Holds (z ++ y)
  count_le : ∀ y, T.Holds y → T.count (z ++ y) ≤ n + T.count y

namespace Wedge

variable {m n : Nat}

theorem seam (hz : T.Wedge z n) (hx : T.Holds x) (hy : T.Holds y) :
    T.Holds (x ++ (z ++ y)) ∧ T.count (x ++ (z ++ y)) ≤ T.count x + n + T.count y := by
  obtain ⟨hholds, hcount⟩ := append_of_stops hz.stops hx (hz.holds y hy)
  have hle := hz.count_le y hy
  exact ⟨hholds, by omega⟩

theorem of_skips (hskips : Skips (readWord? id T.word) z) (hstops : Stops id z T.word.tail) :
    T.Wedge z 0 where
  stops := hstops
  holds y hy := holds_append_of_skips hskips hy
  count_le y _ := Nat.le_of_eq (by rw [count_append_of_skips hskips, Nat.zero_add])

theorem of_clashes {c : Text} (h : (avoids id T.word c && clashesAll id c T.word.tail) = true) :
    T.Wedge c 0 := by
  rw [Bool.and_eq_true] at h
  exact of_skips (skips_of_avoids h.1) (stops_of_clashesAll h.2)

theorem fixed {c : Text} (h : isClear c = true) : T.Wedge c 0 :=
  of_clashes (List.all_eq_true.1 h T.word T.mem_words)

-- a literal is matched with its characters: computing them from its bytes takes far longer
theorem literal {cs : Text} (h : isClear cs = true) : T.Wedge (String.ofList cs).toList 0 := by
  rw [String.toList_ofList]
  exact fixed h

theorem append (hx : T.Wedge x m) (hy : T.Wedge y n) : T.Wedge (x ++ y) (m + n) where
  stops := hx.stops.append y
  holds s hs := by
    rw [List.append_assoc]
    exact hx.holds _ (hy.holds s hs)
  count_le s hs := by
    have h1 := hx.count_le _ (hy.holds s hs)
    have h2 := hy.count_le s hs
    rw [List.append_assoc]
    omega

/-- A part between markup. -/
theorem around {p c : Text} (hz : T.Wedge z n) (hp : T.Holds p) (hc : T.Wedge c m) :
    T.Wedge (z ++ p ++ c) (n + T.count p + m) where
  stops := (hz.stops.append p).append c
  holds y hy := by
    rw [List.append_assoc, List.append_assoc]
    exact hz.holds _ (hc.seam hp hy).1
  count_le y hy := by
    obtain ⟨hholds, hcount⟩ := hc.seam hp hy
    have hle := hz.count_le _ hholds
    rw [List.append_assoc, List.append_assoc]
    omega

theorem part {p c : Text} (hz : T.Wedge z n) (hp : T.Holds p) (hc : T.Wedge c 0) :
    T.Wedge (z ++ p ++ c) (n + T.count p) := hz.around hp hc

theorem between {before after p : Text} (hp : T.Holds p)
    (h : (isClear before && isClear after) = true) :
    T.Wedge (Rule.between (String.ofList before) (String.ofList after) p) (T.count p) := by
  rw [Bool.and_eq_true] at h
  have hpart := part (literal h.1) hp (literal (T := T) h.2)
  rwa [Nat.zero_add] at hpart

/-- Two parts with markup around them and between them. -/
theorem joined {before middle after p q : Text} (hp : T.Holds p) (hq : T.Holds q)
    (h : (isClear before && isClear middle && isClear after) = true) :
    T.Wedge (Rule.between (String.ofList before) (String.ofList middle) p ++
      Rule.between "" (String.ofList after) q) (T.count p + T.count q) := by
  rw [Bool.and_eq_true] at h
  have hpart := part (between hp h.1) hq (literal (T := T) h.2)
  rwa [List.append_assoc] at hpart

end Wedge

theorem Holds.nil : T.Holds [] := fun _ hv =>
  absurd (List.suffix_nil.1 hv) (by simp [T.word_ne_nil])

theorem Holds.fixed {c : Text} (h : isClear c = true) : T.Holds c := by
  have hc := (Wedge.fixed (T := T) h).holds [] .nil
  rwa [List.append_nil] at hc

/-! ## Replacing -/

/-- Markup in the place of what stands at a bar and in front of `y`. -/
theorem Spares.swap {n : Nat} (hs : T.Barred s) (hy : y <:+ s) (hz : T.Wedge z n)
    (hn : n + T.count y ≤ T.count s) (hyt : T.Spares y t) (x : Text) :
    T.Spares (x ++ s) (x ++ (z ++ t)) := by
  intro hxs
  obtain ⟨ht, hcount⟩ := hyt (hxs.of_suffix (hy.trans (List.suffix_append x s)))
  obtain ⟨hseam, hle⟩ := hz.seam (hxs.left hs) ht
  have hsum := T.add_count_le x s
  exact ⟨hseam, by omega⟩

/-- At the front of the text `s`, in front of `r`, something is replaced by `z`, which may use up
the difference between `a` and `b`. It is either left as it is or cut out at a bar. -/
inductive Swaps (T : Mark) (s r z : Text) (a b : Nat) : Prop where
  | same : s = z ++ r → a ≤ b → Swaps T s r z a b
  | swap {n : Nat} : T.Barred s → r <:+ s → T.Wedge z n →
      n + T.count r + a ≤ T.count s + b → Swaps T s r z a b

variable {α : Type} {p : Pattern Char α}

theorem Swaps.of_wedge {r : Text} {n : Nat} (hs : T.Barred s) (hr : r <:+ s) (hz : T.Wedge z n)
    (hn : n + T.count r ≤ T.count s) : T.Swaps s r z 0 0 :=
  .swap hs hr hz hn

/-- All replacements together use up no more than each of them may, where `f` is allowed `G i`
occurrences when the numbers below `i` are taken. -/
theorem spares_fillFrom {f : Nat → α → Text} {G : Nat → Nat}
    (h : ∀ {t a r}, t <:+ s → p.read? t = some (a, r) → ∀ i, T.Swaps t r (f i a) (G i) (G (i + 1)))
    (x : Text) (i : Nat) (hs : T.Holds (x ++ s)) :
    T.Holds (x ++ (Piece.fillFrom f i (p.pieces s)).1) ∧
      T.count (x ++ (Piece.fillFrom f i (p.pieces s)).1) + G i ≤
        T.count (x ++ s) + G (Piece.fillFrom f i (p.pieces s)).2 := by
  fun_induction Pattern.pieces p s generalizing x i with
  | case1 => exact ⟨hs, Nat.le_refl _⟩
  | case2 c s a r hread ih =>
    have hr : r <:+ c :: s → ∀ {t a q}, t <:+ r → p.read? t = some (a, q) →
        ∀ i, T.Swaps t q (f i a) (G i) (G (i + 1)) := fun hr _ _ _ ht => h (ht.trans hr)
    rw [Piece.fillFrom]
    dsimp only
    cases h List.suffix_rfl hread i with
    | same heq hle =>
      have hassoc : x ++ (c :: s) = x ++ f i a ++ r := by rw [heq, List.append_assoc]
      rw [hassoc] at hs ⊢
      obtain ⟨hholds, hcount⟩ := ih (hr ⟨f i a, heq.symm⟩) (x ++ f i a) (i + 1) hs
      rw [← List.append_assoc]
      exact ⟨hholds, by omega⟩
    | swap hbar hsuf hz hle =>
      -- what stands in front of the bar and what is behind the occurrence are taken by themselves
      obtain ⟨hholds, hcount⟩ := ih (hr hsuf) [] (i + 1)
        (hs.of_suffix (hsuf.trans (List.suffix_append x _)))
      rw [List.nil_append, List.nil_append] at hcount
      obtain ⟨hseam, hle'⟩ := hz.seam (hs.left hbar) hholds
      have hsum := T.add_count_le x (c :: s)
      rw [List.nil_append] at hle'
      exact ⟨hseam, by omega⟩
  | case3 c s hnone ih =>
    rw [Piece.fillFrom]
    dsimp only
    have hassoc : ∀ t, x ++ c :: t = x ++ [c] ++ t := List.append_cons x c
    rw [hassoc] at hs
    rw [hassoc s, hassoc (Piece.fillFrom f i (p.pieces s)).1]
    exact ih (fun ht => h (ht.trans (List.suffix_cons c s))) (x ++ [c]) i hs

theorem spares_substitute {f : α → Text}
    (h : ∀ {t a r}, t <:+ s → p.read? t = some (a, r) → T.Swaps t r (f a) 0 0) :
    T.Spares s (p.substitute f s) := by
  intro hs
  have hall := spares_fillFrom (f := fun _ => f) (G := fun _ => 0) (x := [])
    (fun ht hr _ => h ht hr) 0 hs
  rwa [Piece.fillFrom_const] at hall

end Mark

end BBCode.Card
