import BBCode.Proofs.Template.Items
import BBCode.Proofs.Text.Occurs

/-!
# BBCode.Proofs.Unclosed.Items

Item markers where no list is closed. Items are split over the whole document and not list by list,
and a marker ends the item before it. So markers that stand in no closed list start items all the
same, except for the last one.

* `pieces_parts`: without the end of a list, only markers bound items.
* `split_of_noListEnd`: what the splitter writes between and behind the markers.
* `resolve_unclosed`: such a text stays as it is exactly if it has at most one marker.
-/

namespace BBCode.Item

/-! ## Between the markers -/

/-- The text before the first marker, and the texts that follow the markers. -/
def parts : Text → Text × List Text
  | '[' :: '*' :: ']' :: s => ([], (parts s).1 :: (parts s).2)
  | c :: s => (c :: (parts s).1, (parts s).2)
  | [] => ([], [])

/-- Texts with a marker in front of each. -/
def marked (qs : List Text) : Text := qs.flatMap (markerText ++ ·)

theorem parts_append (s : Text) : (parts s).1 ++ marked (parts s).2 = s := by
  fun_induction parts s with
  | case1 s ih =>
    rw [List.nil_append, marked, List.flatMap_cons, List.append_assoc]
    exact congrArg (markerText ++ ·) ih
  | case2 c s _ ih => exact congrArg (c :: ·) ih
  | case3 => rfl

theorem markerText_eq : markerText = ['[', '*', ']'] := by decide

theorem not_infix_parts (s : Text) : ∀ q ∈ (parts s).1 :: (parts s).2, ¬ markerText <:+: q := by
  have hnil : ¬ markerText <:+: [] := by simp [markerText]
  fun_induction parts s with
  | case1 s ih => exact List.forall_mem_cons.2 ⟨hnil, ih⟩
  | case2 c s hne ih =>
    obtain ⟨hp, hqs⟩ := List.forall_mem_cons.1 ih
    refine List.forall_mem_cons.2 ⟨fun hi => ?_, hqs⟩
    rcases List.infix_cons_iff.1 hi with ⟨r, hr⟩ | hi
    · -- a marker at the front of the part is one at the front of the text
      simp only [markerText_eq, List.cons_append, List.nil_append, List.cons.injEq] at hr
      refine hne (r ++ marked (parts s).2) hr.1.symm ((parts_append s).symm.trans ?_)
      rw [← hr.2]
      rfl
    · exact hp hi
  | case3 => simpa using hnil

/-- A text with two markers has them in front of two parts. -/
theorem length_parts_le_one {s : Text}
    (h : ∀ a b c, s ≠ a ++ (markerText ++ (b ++ (markerText ++ c)))) :
    (parts s).2.length ≤ 1 := by
  have hs := parts_append s
  match hqs : (parts s).2 with
  | [] => exact Nat.zero_le 1
  | [_] => exact Nat.le_refl 1
  | q :: q' :: qs =>
    refine absurd (hs.symm.trans ?_) (h (parts s).1 q (q' ++ marked qs))
    rw [hqs]
    simp [marked]

/-! ## Bounds -/

/-- The end of no list element stands in the text, in whatever letter case. -/
structure NoListEnd (s : Text) : Prop where
  ordered : ¬ "</ol>".toList <:+: s.map foldCase
  unordered : ¬ "</ul>".toList <:+: s.map foldCase

theorem NoListEnd.of_suffix {s t : Text} (h : NoListEnd s) (ht : t <:+ s) : NoListEnd t where
  ordered hi := h.ordered (hi.trans (ht.isInfix.map foldCase))
  unordered hi := h.unordered (hi.trans (ht.isInfix.map foldCase))

theorem readBound?_of_noListEnd {s : Text} (h : NoListEnd s) :
    readBound? s = (readWord? id markerText s).map fun x => (.marker, x.2) := by
  rw [readBound?, readWord?_of_not_isInfix h.ordered, readWord?_of_not_isInfix h.unordered]
  cases readWord? id markerText s <;> rfl

/-- The pieces of texts with a marker in front of each. -/
def markedPieces (qs : List Text) : List (Piece Char Bound) :=
  qs.flatMap fun q => .found .marker :: q.map .plain

/-- Where no list ends, the bounds of items are the markers. -/
theorem pieces_parts {s : Text} (h : NoListEnd s) :
    pattern.pieces s = (parts s).1.map .plain ++ markedPieces (parts s).2 := by
  fun_induction parts s with
  | case1 s ih =>
    have hword : readWord? id markerText ('[' :: '*' :: ']' :: s) = some (markerText, s) := by
      rw [markerText_eq]
      exact readWord?_self_append (w := ['[', '*', ']']) rfl s
    have hread : pattern.read? ('[' :: '*' :: ']' :: s) = some (.marker, s) := by
      show readBound? ('[' :: '*' :: ']' :: s) = _
      rw [readBound?_of_noListEnd h, hword]
      rfl
    rw [Pattern.pieces_of_read hread, ih (h.of_suffix ⟨['[', '*', ']'], rfl⟩)]
    rfl
  | case2 c s hne ih =>
    have hword : readWord? id markerText (c :: s) = none := by
      rw [Option.eq_none_iff_forall_ne_some]
      rintro ⟨a, r⟩ ha
      obtain ⟨hmarker, hs⟩ := readWord?_eq_some.1 ha
      rw [List.map_id, markerText_eq] at hmarker
      simp only [hmarker, List.cons_append, List.nil_append, List.cons.injEq] at hs
      exact hne r hs.1 hs.2
    have hread : pattern.read? (c :: s) = none := by
      show readBound? (c :: s) = none
      rw [readBound?_of_noListEnd h, hword]
      rfl
    rw [Pattern.pieces_of_not_read hread, ih (h.of_suffix (List.suffix_cons c s))]
    rfl
  | case3 => exact Pattern.pieces_nil _

/-! ## Items -/

/-- What becomes of the texts behind the markers: each but the last one is an item. -/
def looseItems : List Text → Text
  | [] => []
  | [q] => markerText ++ q
  | q :: q' :: qs => element q ++ looseItems (q' :: qs)

theorem write_markedPieces (qs : List Text) : write (markedPieces qs) = looseItems qs := by
  induction qs with
  | nil => rw [markedPieces, List.flatMap_nil, write, looseItems]
  | cons q qs ih =>
    have hcons : markedPieces (q :: qs) = .found .marker :: (q.map .plain ++ markedPieces qs) := rfl
    rw [hcons]
    cases qs with
    | nil =>
      have hup : upToBound? (q.map .plain ++ markedPieces []) = none := by
        rw [upToBound?_plain]
        rfl
      rw [write_marker_of_none hup, write_plain, ih, looseItems, looseItems, List.append_nil]
    | cons q' qs =>
      have hup : upToBound? (q.map .plain ++ markedPieces (q' :: qs)) =
          some (q, markedPieces (q' :: qs)) := by
        rw [upToBound?_plain]
        simp [markedPieces, upToBound?]
      rw [write_marker_of_some hup, ih, looseItems]

/-- What the splitter makes of a text without the end of a list. -/
theorem split_of_noListEnd {s : Text} (h : NoListEnd s) :
    split s = (parts s).1 ++ looseItems (parts s).2 := by
  rw [split, pieces_parts h, write_plain, write_markedPieces]

/-- An item does not look like a marker. -/
theorem looseItems_eq_marked_iff (qs : List Text) :
    looseItems qs = marked qs ↔ qs.length ≤ 1 := by
  match qs with
  | [] => simp [looseItems, marked]
  | [q] => simp [looseItems, marked]
  | q :: q' :: qs => simp [looseItems, marked, element, Rule.between, markerText]

theorem split_eq_self_iff {s : Text} (h : NoListEnd s) :
    split s = s ↔ (parts s).2.length ≤ 1 := by
  rw [split_of_noListEnd h, ← looseItems_eq_marked_iff]
  conv => lhs; rhs; rw [← parts_append s]
  exact List.append_right_inj _

/-! ## Lists -/

theorem resolve_of_not_isInfix {o : Options} {s : Text}
    (hlist : ¬ "[/list]".toList <:+: s.map foldCase) (t : Tally) :
    resolve o (s, t) = (split s, t) := by
  have hmisses : ∀ r ∈ rules, r.pattern.Misses s := by
    intro r hr
    simp only [rules, List.mem_cons, List.not_mem_nil, or_false] at hr
    rcases hr with rfl | rfl
    · exact TagPair.misses_of_not_isInfix hlist
    · exact TagPair.misses_of_not_isInfix hlist
  rw [resolve, Rule.applyAll_of_misses hmisses]

/-- Where no list is closed, the text before the first marker stays, each text that stands between
two markers becomes an item, and the last marker stays with what follows it. So the text stays as
it is exactly if it has at most one marker. -/
theorem resolve_unclosed (o : Options) (s : Text) (t : Tally)
    (hlist : ¬ "[/list]".toList <:+: s.map foldCase) (hend : NoListEnd s) :
    (parts s).1 ++ marked (parts s).2 = s ∧
      (∀ q ∈ (parts s).1 :: (parts s).2, ¬ markerText <:+: q) ∧
      resolve o (s, t) = ((parts s).1 ++ looseItems (parts s).2, t) ∧
      ((resolve o (s, t)).1 = s ↔ (parts s).2.length ≤ 1) := by
  have hresolve := resolve_of_not_isInfix (o := o) hlist t
  refine ⟨parts_append s, not_infix_parts s, ?_, ?_⟩
  · rw [hresolve, split_of_noListEnd hend]
  · rw [hresolve]
    exact split_eq_self_iff hend

/-- Three markers in a list that is not closed. -/
theorem resolve_unclosed_threeMarkers :
    ¬ "[/list]".toList <:+: "[list]\n[*]a\n[*]b[*]c".toList.map foldCase ∧
      NoListEnd "[list]\n[*]a\n[*]b[*]c".toList ∧
      parts "[list]\n[*]a\n[*]b[*]c".toList =
        ("[list]\n".toList, ["a\n".toList, "b".toList, "c".toList]) ∧
      (resolve {} ("[list]\n[*]a\n[*]b[*]c".toList, { widgets := .empty })).1 =
        "[list]\n<li>a</li><li>b</li>[*]c".toList := by
  have hlist : ¬ "[/list]".toList <:+: "[list]\n[*]a\n[*]b[*]c".toList.map foldCase := by
    decide +kernel
  have hend : NoListEnd "[list]\n[*]a\n[*]b[*]c".toList := ⟨by decide +kernel, by decide +kernel⟩
  obtain ⟨-, -, hresolve, -⟩ := resolve_unclosed {} _ { widgets := .empty } hlist hend
  refine ⟨hlist, hend, by decide +kernel, ?_⟩
  rw [hresolve]
  decide +kernel

/-- Two markers outside of all lists make an item. -/
theorem loose_marker_itemized : ¬ ∀ (o : Options) (s : Text) (t : Tally),
    ¬ "[/list]".toList <:+: s.map foldCase → NoListEnd s → (resolve o (s, t)).1 = s := by
  intro h
  have hlist : ¬ "[/list]".toList <:+: "[*]a[*]b".toList.map foldCase := by decide +kernel
  have hend : NoListEnd "[*]a[*]b".toList := ⟨by decide +kernel, by decide +kernel⟩
  have hself := h {} _ { widgets := .empty } hlist hend
  rw [resolve_of_not_isInfix hlist, split_of_noListEnd hend] at hself
  exact absurd hself (by decide +kernel)

end BBCode.Item
