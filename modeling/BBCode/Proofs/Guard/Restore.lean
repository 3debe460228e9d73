import BBCode.Guard
import BBCode.Proofs.Text.Decimal
import BBCode.Proofs.Text.Skip

/-!
# BBCode.Proofs.Guard.Restore

Placeholders of code regions. The regions are put back one after the other; here that is shown to
be the same as replacing all placeholders at once, whatever the order, because no region holds a
character that placeholders are made of and no placeholder overlaps another.

* `readPlaceholder?_eq_some`: which placeholder stands in front of a text.
* `substitute_placeholder_substitute`: one more region put back is one more placeholder replaced.
-/

namespace BBCode

namespace Guarded

/-- A text without the characters that placeholders are made of. -/
def Unreserved (s : Text) : Prop := ∀ c ∈ s, isReserved c = false

instance (s : Text) : Decidable (Unreserved s) :=
  inferInstanceAs (Decidable (∀ c ∈ s, isReserved c = false))

theorem Unreserved.append {s t : Text} (hs : Unreserved s) (ht : Unreserved t) :
    Unreserved (s ++ t) := by
  intro c hc
  rcases List.mem_append.1 hc with hc | hc
  · exact hs c hc
  · exact ht c hc

theorem unreserved_strip (s : Text) : Unreserved (strip s) := by
  intro c hc
  simpa [strip] using (List.mem_filter.1 hc).2

theorem ne_start {c : Char} (h : isReserved c = false) : c ≠ placeholderStart := by
  rintro rfl
  exact absurd h (by decide)

/-- What follows the first character of a placeholder up to its last. -/
def label (k : Nat) : Text := "CODE".toList ++ decimal k

theorem placeholder_eq (k : Nat) : placeholder k = placeholderStart :: (label k ++ [placeholderStop]) := by
  simp [placeholder, label]

theorem unreserved_label (k : Nat) : Unreserved (label k) := by
  intro c hc
  rcases List.mem_append.1 hc with hc | hc
  · have hw : ∀ d ∈ "CODE".toList, isReserved d = false := by decide
    exact hw c hc
  · have hd : ∀ d ∈ "0123456789".toList, isReserved d = false := by decide
    exact hd c (mem_digits (isDigit_of_mem_decimal hc))

theorem ne_lt_of_mem_label {k : Nat} {c : Char} (h : c ∈ label k) : c ≠ '<' := by
  rintro rfl
  rcases List.mem_append.1 h with h | h
  · revert h
    decide
  · exact absurd (isDigit_of_mem_decimal h) (by decide)

/-- Behind its first character, a placeholder has neither that character again nor the first
character of a code block. -/
theorem ne_of_mem_tail {k : Nat} {c : Char} (h : c ∈ label k ++ [placeholderStop]) :
    c ≠ placeholderStart ∧ c ≠ '<' := by
  rcases List.mem_append.1 h with h | h
  · exact ⟨ne_start (unreserved_label k c h), ne_lt_of_mem_label h⟩
  · rw [List.mem_singleton.1 h]
    decide

theorem label_append_stop_inj {j k : Nat} {s t : Text}
    (h : label j ++ placeholderStop :: s = label k ++ placeholderStop :: t) : j = k ∧ s = t := by
  have hj : ∀ n, placeholderStop ∉ label n := fun n hm =>
    absurd (unreserved_label n _ hm) (by decide)
  obtain ⟨hl, hst⟩ := append_cons_inj (hj j) (hj k) h
  exact ⟨decimal_inj (List.append_cancel_left hl), hst⟩

theorem placeholder_append_inj {j k : Nat} {s t : Text}
    (h : placeholder j ++ s = placeholder k ++ t) : j = k ∧ s = t := by
  simp only [placeholder_eq, List.cons_append, List.append_assoc, List.nil_append,
    List.cons.injEq, true_and] at h
  exact label_append_stop_inj h

theorem readWord?_placeholder {k : Nat} {s a r : Text} :
    readWord? id (placeholder k) s = some (a, r) ↔ a = placeholder k ∧ s = placeholder k ++ r := by
  rw [readWord?_eq_some, List.map_id]
  constructor
  · rintro ⟨rfl, rfl⟩; exact ⟨rfl, rfl⟩
  · rintro ⟨rfl, rfl⟩; exact ⟨rfl, rfl⟩

/-! ## All placeholders at once -/

/-- Reads the placeholder of one of the first `n` code regions. -/
def readPlaceholder? (n : Nat) (s : Text) : Option (Nat × Text) :=
  (List.range n).findSome? fun k =>
    (readWord? id (placeholder k) s).map fun x => (k, x.2)

theorem readPlaceholder?_eq_some {n k : Nat} {s r : Text} :
    readPlaceholder? n s = some (k, r) ↔ k < n ∧ s = placeholder k ++ r := by
  constructor
  · intro h
    obtain ⟨j, hj, hr⟩ := List.exists_of_findSome?_eq_some h
    simp only [Option.map_eq_some_iff, Prod.mk.injEq] at hr
    obtain ⟨⟨a, q⟩, hq, rfl, rfl⟩ := hr
    exact ⟨List.mem_range.1 hj, (readWord?_placeholder.1 hq).2⟩
  · rintro ⟨hk, rfl⟩
    cases h : readPlaceholder? n (placeholder k ++ r) with
    | none =>
      have hn := List.findSome?_eq_none_iff.1 h k (List.mem_range.2 hk)
      rw [readWord?_placeholder.2 ⟨rfl, rfl⟩] at hn
      cases hn
    | some x =>
      obtain ⟨j, hj, hr⟩ := List.exists_of_findSome?_eq_some h
      simp only [Option.map_eq_some_iff] at hr
      obtain ⟨⟨a, q⟩, hq, rfl⟩ := hr
      obtain ⟨rfl, rfl⟩ := placeholder_append_inj (readWord?_placeholder.1 hq).2
      rfl

theorem readPlaceholder?_length {n k : Nat} {s r : Text}
    (h : readPlaceholder? n s = some (k, r)) : r.length < s.length := by
  obtain ⟨-, rfl⟩ := readPlaceholder?_eq_some.1 h
  have := List.length_pos_iff.2 (placeholder_ne_nil k)
  simp only [List.length_append]
  omega

/-- The placeholders of the first `n` code regions. -/
def placeholders (n : Nat) : Pattern Char Nat where
  read? := readPlaceholder? n
  shorter := readPlaceholder?_length

theorem readPlaceholder?_cons {n : Nat} {c : Char} (h : c ≠ placeholderStart) (s : Text) :
    readPlaceholder? n (c :: s) = none := by
  rw [Option.eq_none_iff_forall_ne_some]
  rintro ⟨k, r⟩ hk
  obtain ⟨-, hs⟩ := readPlaceholder?_eq_some.1 hk
  rw [placeholder_eq, List.cons_append, List.cons.injEq] at hs
  exact h hs.1

theorem skips_placeholders {n : Nat} {x : Text} (h : Unreserved x) :
    Skips (placeholders n).read? x :=
  .of_forall_mem fun c hc s => readPlaceholder?_cons (ne_start (h c hc)) s

theorem skips_placeholder {k : Nat} {x : Text} (h : Unreserved x) :
    Skips (readWord? id (placeholder k)) x := by
  rw [placeholder_eq]
  exact skips_of_head_ne fun c hc => ne_start (h c hc)

/-- A reading behind the front of a substituted text was there before: a text that holds neither a
placeholder's first character nor the start of a code block is not made by putting blocks in. -/
theorem eq_append_of_substitute_eq {n : Nat} {f : Nat → Text}
    (hf : ∀ k, f k = placeholder k ∨ (f k).head? = some '<')
    {w s q : Text} (hw : ∀ c ∈ w, c ≠ placeholderStart ∧ c ≠ '<')
    (h : (placeholders n).substitute f s = w ++ q) :
    ∃ r, s = w ++ r ∧ (placeholders n).substitute f r = q := by
  induction w generalizing s with
  | nil => exact ⟨s, rfl, h⟩
  | cons p w ih =>
    obtain ⟨hp, hlt⟩ := hw p (by simp)
    cases s with
    | nil => simp at h
    | cons c s =>
      cases hr : (placeholders n).read? (c :: s) with
      | some x =>
        rw [Pattern.substitute_of_read (a := x.1) (r := x.2) hr] at h
        have hhead := congrArg List.head? h
        rcases hf x.1 with hfk | hfk
        · rw [hfk, placeholder_eq] at hhead
          simp only [List.cons_append, List.head?_cons, Option.some.injEq] at hhead
          exact absurd hhead.symm hp
        · simp only [List.head?_append, hfk, Option.some_or, List.cons_append, List.head?_cons,
            Option.some.injEq] at hhead
          exact absurd hhead.symm hlt
      | none =>
        rw [Pattern.substitute_of_not_read hr, List.cons_append, List.cons.injEq] at h
        obtain ⟨rfl, h⟩ := h
        obtain ⟨r, rfl, hq⟩ := ih (fun d hd => hw d (by simp [hd])) h
        exact ⟨r, rfl, hq⟩

/-- The placeholder of another region is passed over. -/
theorem substitute_placeholder_append {k n : Nat} (hk : k ≠ n) (f : Text → Text) (r : Text) :
    (Pattern.word id (placeholder n) (placeholder_ne_nil n)).substitute f (placeholder k ++ r) =
      placeholder k ++ (Pattern.word id (placeholder n) (placeholder_ne_nil n)).substitute f r := by
  have hnone : (Pattern.word id (placeholder n) (placeholder_ne_nil n)).read?
      (placeholder k ++ r) = none := by
    rw [Option.eq_none_iff_forall_ne_some]
    rintro ⟨a, q⟩ ha
    exact hk (placeholder_append_inj (readWord?_placeholder.1 ha).2).1
  have hskip : Skips (readWord? id (placeholder n)) (label k ++ [placeholderStop]) := by
    rw [placeholder_eq n]
    exact skips_of_head_ne fun c hc => (ne_of_mem_tail hc).1
  rw [placeholder_eq k, List.cons_append] at hnone ⊢
  rw [Pattern.substitute_of_not_read hnone, Pattern.substitute_append hskip, List.cons_append]

/-- Putting blocks in behind a character makes no placeholder that starts with it. -/
theorem readWord?_cons_substitute_eq_none {n N : Nat} (hn : n < N) {f : Nat → Text}
    (hf : ∀ k, f k = placeholder k ∨ (f k).head? = some '<') {c : Char} {s : Text}
    (h : readPlaceholder? N (c :: s) = none) :
    readWord? id (placeholder n) (c :: (placeholders N).substitute f s) = none := by
  rw [Option.eq_none_iff_forall_ne_some]
  rintro ⟨a, q⟩ hq
  obtain ⟨-, hs⟩ := readWord?_placeholder.1 hq
  rw [placeholder_eq, List.cons_append, List.cons.injEq] at hs
  obtain ⟨rfl, hs⟩ := hs
  obtain ⟨r, rfl, -⟩ := eq_append_of_substitute_eq hf (fun d hd => ne_of_mem_tail hd) hs
  have hread : readPlaceholder? N (placeholderStart :: (label n ++ [placeholderStop] ++ r)) =
      some (n, r) :=
    readPlaceholder?_eq_some.2 ⟨hn, by rw [placeholder_eq, List.cons_append]⟩
  rw [hread] at h
  cases h

/-- Among placeholders of which some have been replaced already, replacing those of one more region
is replacing them at once with the others. -/
theorem substitute_placeholder_substitute {n N : Nat} (hn : n < N) {f : Nat → Text}
    (hf : ∀ k, f k = placeholder k ∨ Unreserved (f k) ∧ (f k).head? = some '<')
    (hfn : f n = placeholder n) (block html : Text) :
    (Pattern.word id (placeholder n) (placeholder_ne_nil n)).substitute (fun _ => block)
        ((placeholders N).substitute f html) =
      (placeholders N).substitute (fun k => if k = n then block else f k) html := by
  induction hlen : html.length using Nat.strongRecOn generalizing html with
  | ind len ih =>
    subst hlen
    cases html with
    | nil => simp
    | cons c s =>
      cases hr : readPlaceholder? N (c :: s) with
      | some x =>
        obtain ⟨k, r⟩ := x
        have hrest := ih r.length (readPlaceholder?_length hr) r rfl
        rw [Pattern.substitute_of_read (p := placeholders N) hr,
          Pattern.substitute_of_read (p := placeholders N) hr]
        by_cases hk : k = n
        · -- the placeholder of this region
          subst hk
          rw [if_pos rfl, hfn, Pattern.substitute_of_read (readWord?_placeholder.2 ⟨rfl, rfl⟩), hrest]
        · -- another placeholder, replaced or not
          rw [if_neg hk]
          rcases hf k with hfk | ⟨hfk, -⟩
          · rw [hfk, substitute_placeholder_append hk, hrest]
          · rw [Pattern.substitute_append (skips_placeholder hfk), hrest]
      | none =>
        -- any other character
        have hw := readWord?_cons_substitute_eq_none hn (fun k => (hf k).imp_right And.right) hr
        rw [Pattern.substitute_of_not_read (p := placeholders N) hr,
          Pattern.substitute_of_not_read (p := placeholders N) hr, Pattern.substitute_of_not_read hw,
          ih s.length (Nat.lt_succ_self _) s rfl]

end Guarded

end BBCode
