import BBCode.Text
import BBCode.Token

/-!
# BBCode.Proofs.Text.Bytes

Texts as UTF-8 bytes, and the stretches of bytes that the items of a list take when they are
written one after the other.

* `length_toBytes`: the length of a text is counted in its bytes.
* `toBytes_injective`: two texts of the same bytes are the same text.
* `withSpans_endToEnd`: spans follow one another without a gap.
* `withSpans_at`: a span ends where characters do, and holds the source of its item.
* `withSpans_cover` and `withSpans_slice`: the same where the first item stands at the first byte.
-/

namespace BBCode

namespace Text

@[simp] theorem toBytes_append (s t : Text) : toBytes (s ++ t) = toBytes s ++ toBytes t :=
  List.flatMap_append

@[simp] theorem byteLength_nil : byteLength [] = 0 := rfl

@[simp] theorem byteLength_cons (c : Char) (s : Text) :
    byteLength (c :: s) = c.utf8Size + byteLength s := rfl

theorem length_toBytes (s : Text) : (toBytes s).length = byteLength s := by
  induction s with
  | nil => rfl
  | cons c s ih =>
    rw [toBytes, List.flatMap_cons, List.length_append, String.length_utf8EncodeChar,
      byteLength_cons]
    exact congrArg (c.utf8Size + ·) ih

theorem byteLength_append (s t : Text) : byteLength (s ++ t) = byteLength s + byteLength t := by
  simp only [← length_toBytes, toBytes_append, List.length_append]

theorem byteLength_pos {s : Text} (h : s ≠ []) : 0 < byteLength s := by
  cases s with
  | nil => exact absurd rfl h
  | cons c s =>
    have := c.utf8Size_pos
    rw [byteLength_cons]
    omega

theorem toBytes_injective {s t : Text} (h : toBytes s = toBytes t) : s = t := by
  apply String.ofList_injective
  rw [← String.toByteArray_inj, String.toByteArray_ofList, String.toByteArray_ofList]
  exact congrArg List.toByteArray h

end Text

variable {α : Type} {source : α → Text}

/-- Items whose spans follow one another from byte `n` to byte `m`, none of them empty. -/
inductive EndToEnd : Nat → Nat → List (α × Span) → Prop
  | nil (n : Nat) : EndToEnd n n []
  | cons {start stop m : Nat} {a : α} {as : List (α × Span)} (h : start < stop)
      (rest : EndToEnd stop m as) : EndToEnd start m ((a, ⟨start, stop⟩) :: as)

theorem map_fst_withSpans (source : α → Text) (n : Nat) (as : List α) :
    (withSpans source n as).map Prod.fst = as := by
  induction as generalizing n with
  | nil => rfl
  | cons a as ih => simp [withSpans, ih]

theorem withSpans_endToEnd {as : List α} (h : ∀ a ∈ as, source a ≠ []) (n : Nat) :
    EndToEnd n (n + Text.byteLength (as.flatMap source)) (withSpans source n as) := by
  induction as generalizing n with
  | nil => exact .nil n
  | cons a as ih =>
    have hpos := Text.byteLength_pos (h a (by simp))
    refine .cons (by omega) ?_
    have hrest := ih (fun b hb => h b (by simp [hb])) (n + (source a).byteLength)
    rwa [List.flatMap_cons, Text.byteLength_append, ← Nat.add_assoc]

theorem withSpans_at {as : List α} {n : Nat} {x : α × Span} (hx : x ∈ withSpans source n as) :
    ∃ before after, as.flatMap source = before ++ source x.1 ++ after ∧
      x.2 = ⟨n + Text.byteLength before, n + Text.byteLength (before ++ source x.1)⟩ := by
  induction as generalizing n with
  | nil => cases hx
  | cons a as ih =>
    rcases List.mem_cons.1 hx with rfl | hx
    · exact ⟨[], as.flatMap source, by simp, by simp⟩
    · obtain ⟨before, after, hs, hspan⟩ := ih hx
      refine ⟨source a ++ before, after, by simp [hs], ?_⟩
      rw [hspan]
      simp only [Text.byteLength_append, Span.mk.injEq]
      omega

/-- The spans of a text that falls into items go from its first byte to its last. -/
theorem withSpans_cover {as : List α} {s : Text} (hs : as.flatMap source = s)
    (h : ∀ a ∈ as, source a ≠ []) : EndToEnd 0 (Text.toBytes s).length (withSpans source 0 as) := by
  have hspans := withSpans_endToEnd h 0
  rwa [Nat.zero_add, hs, ← Text.length_toBytes] at hspans

/-- Each item is the slice of the text at its span. -/
theorem withSpans_slice {as : List α} {s : Text} {x : α × Span} (hs : as.flatMap source = s)
    (hx : x ∈ withSpans source 0 as) : ∃ before after, s = before ++ source x.1 ++ after ∧
      x.2 = ⟨(Text.toBytes before).length, (Text.toBytes (before ++ source x.1)).length⟩ := by
  obtain ⟨before, after, hsource, hspan⟩ := withSpans_at hx
  rw [hs] at hsource
  simp only [Nat.zero_add, ← Text.length_toBytes] at hspan
  exact ⟨before, after, hsource, hspan⟩

end BBCode
