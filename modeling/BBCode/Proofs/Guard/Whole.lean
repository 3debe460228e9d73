import BBCode.Proofs.Lasting.Pattern

/-!
# BBCode.Proofs.Guard.Whole

Texts in which the characters of placeholders occur as whole placeholders only.

* `Whole.cut`: in front of a character that no placeholder has, a text is cut in whole parts.
* `Whole.lasting`: so a render does not break the property.
* `unreserved_restore`: putting the code regions back leaves no character of a placeholder.
-/

namespace BBCode

namespace Guarded

/-- The text holds characters of placeholders only as parts of whole placeholders, and only those
of the first `n` code regions. -/
inductive Whole (n : Nat) : Text → Prop where
  | nil : Whole n []
  | char {c : Char} {s : Text} (hc : isReserved c = false) (hs : Whole n s) : Whole n (c :: s)
  | placeholder {k : Nat} {s : Text} (hk : k < n) (hs : Whole n s) : Whole n (placeholder k ++ s)

namespace Whole

variable {n : Nat} {s t : Text}

theorem of_unreserved (h : Unreserved s) : Whole n s := by
  induction s with
  | nil => exact .nil
  | cons c s ih => exact .char (h c (by simp)) (ih fun d hd => h d (by simp [hd]))

theorem append (hs : Whole n s) (ht : Whole n t) : Whole n (s ++ t) := by
  induction hs with
  | nil => exact ht
  | char hc _ ih => exact .char hc ih
  | placeholder hk _ ih =>
    rw [List.append_assoc]
    exact .placeholder hk ih

/-- Without code regions there are no placeholders. -/
theorem unreserved (h : Whole 0 s) : Unreserved s := by
  induction h with
  | nil => simp [Unreserved]
  | char hc _ ih =>
    intro d hd
    rcases List.mem_cons.1 hd with rfl | hd
    · exact hc
    · exact ih d hd
  | placeholder hk => omega

theorem tail {c : Char} (hc : isReserved c = false) (h : Whole n (c :: s)) : Whole n s := by
  generalize hx : c :: s = x at h
  cases h with
  | nil => cases hx
  | char _ hs =>
    cases hx
    exact hs
  | @placeholder k r hk hs =>
    rw [placeholder_eq, List.cons_append, List.cons.injEq] at hx
    exact absurd hx.1 (ne_start hc)

theorem of_append {a : Text} (ha : Unreserved a) (h : Whole n (a ++ s)) : Whole n s := by
  induction a with
  | nil => exact h
  | cons c a ih => exact ih (fun d hd => ha d (by simp [hd])) (h.tail (ha c (by simp)))

/-- In front of a character that no placeholder has, no placeholder is cut. -/
theorem cut {a : Text} {c : Char} (hc : c ∉ labelChars) (h : Whole n (a ++ c :: s)) :
    Whole n a ∧ Whole n (c :: s) := by
  generalize hx : a ++ c :: s = x at h
  induction h generalizing a with
  | nil => simp at hx
  | @char d r hd hr ih =>
    cases a with
    | nil =>
      rw [List.nil_append] at hx
      exact ⟨.nil, hx ▸ .char hd hr⟩
    | cons e a =>
      rw [List.cons_append, List.cons.injEq] at hx
      obtain ⟨rfl, hx⟩ := hx
      obtain ⟨ha, hs⟩ := ih hx
      exact ⟨.char hd ha, hs⟩
  | @placeholder k r hk hr ih =>
    rcases List.append_eq_append_iff.1 hx with ⟨b, hb, hcs⟩ | ⟨b, rfl, hcs⟩
    · cases b with
      | nil =>
        rw [List.append_nil] at hb
        rw [List.nil_append] at hcs
        have hwhole : Whole n (Guarded.placeholder k ++ []) := .placeholder hk .nil
        rw [List.append_nil, hb] at hwhole
        exact ⟨hwhole, hcs ▸ hr⟩
      | cons d b =>
        -- the character would be one of the placeholder
        rw [List.cons_append, List.cons.injEq] at hcs
        refine absurd (mem_labelChars_of_mem_placeholder (k := k) ?_) hc
        rw [hb, hcs.1]
        simp
    · obtain ⟨hb, hs⟩ := ih hcs.symm
      exact ⟨.placeholder hk hb, hs⟩

theorem lasting (n : Nat) : Lasting (Whole n) where
  fixed h := of_unreserved (unreserved_of_isPrintable h)
  append := append
  cut := cut
  split ha h := ⟨of_unreserved ha, h.of_append ha⟩

end Whole

/-! ## Lifting out and putting back -/

theorem whole_fillFrom {ps : List (Piece Char Region)} (h : ∀ c, .plain c ∈ ps → isReserved c = false)
    {i n : Nat} (hn : i + (contents ps).length ≤ n) :
    Whole n (Piece.fillFrom (fun k _ => placeholder k) i ps).1 := by
  induction ps generalizing i with
  | nil => exact .nil
  | cons p ps ih =>
    have ih := @ih fun c hc => h c (List.mem_cons_of_mem _ hc)
    cases p with
    | plain c => exact .char (h c List.mem_cons_self) (ih hn)
    | found r =>
      have hlen : i + ((contents ps).length + 1) ≤ n := hn
      exact .placeholder (by omega) (ih (by omega))

/-- The protected text holds the placeholders of its code regions. -/
theorem whole_protect (source : Text) (m : CodeMatching) :
    Whole (protect source m).blocks.length (protect source m).text := by
  refine whole_fillFrom (fun c hc => ?_) (Nat.le_of_eq (Nat.zero_add _))
  exact unreserved_of_mem_pieces (unreserved_strip source) hc c (by simp [Piece.fill])

theorem unreserved_substitute {n : Nat} {f : Nat → Text} (hf : ∀ k, Unreserved (f k)) {s : Text}
    (hs : Whole n s) : Unreserved ((placeholders n).substitute f s) := by
  induction hs with
  | nil => simp [Unreserved]
  | @char c s hc _ ih =>
    rw [Pattern.substitute_of_not_read (readPlaceholder?_cons (ne_start hc) s)]
    intro d hd
    rcases List.mem_cons.1 hd with rfl | hd
    · exact hc
    · exact ih d hd
  | @placeholder k s hk _ ih =>
    have hread : (placeholders n).read? (placeholder k ++ s) = some (k, s) :=
      readPlaceholder?_eq_some.2 ⟨hk, rfl⟩
    rw [Pattern.substitute_of_read hread]
    exact (hf k).append ih

theorem unreserved_restore {blocks : List Text} (hb : ∀ b ∈ blocks, Unreserved b) {html : Text}
    (h : Whole blocks.length html) : Unreserved (restore blocks html) := by
  rw [restore_eq]
  split
  · rename_i hnil
    rw [List.isEmpty_iff.1 hnil] at h
    exact h.unreserved
  · have hshown : Unreserved (blocks.zipIdx.foldl restoreOne html) := by
      rw [foldl_restoreOne hb]
      exact unreserved_substitute (fun k => unreserved_codeBlock hb k) h
    have hclean : Clean (Whole 0) (fun _ => True) (Rule.tagBreak "</pre>".toList) :=
      .tagBreak (Whole.lasting 0) (.of_id (by decide) (by decide))
    have hclose : Unreserved "</pre>".toList := by decide
    have hdropped : Whole 0 (dropBreaks (blocks.zipIdx.foldl restoreOne html)) :=
      hclean.substitute (Whole.lasting 0) (fun _ _ => .of_unreserved hclose) (.of_unreserved hshown)
    exact hdropped.unreserved

/-- Characters of placeholders that stand in a document are gone before anything else is read. -/
theorem protect_strip (source : Text) (m : CodeMatching) :
    protect (strip source) m = protect source m := by
  have hstrip : strip (strip source) = strip source :=
    List.filter_eq_self.2 fun c hc => by simp [unreserved_strip source c hc]
  unfold protect
  rw [hstrip]

end Guarded

end BBCode
