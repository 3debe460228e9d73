import BBCode.Proofs.Text.Ends
import Mathlib.Logic.ExistsUnique

/-!
# BBCode.Proofs.Text.Core

What trimming leaves of a text. A text can be cut into breaks, a core and breaks in one way only, if
the core has no break at its ends and a text of nothing but breaks counts as breaks in front.

* `Cut.trimBreaks_eq`: the core of a cut is what trimming leaves.
* `Cut.unique`: there is no second cut.
* `trimBreaks_exact`: trimming finds the core, and it makes no difference how often, from which end
  or with how many breaks around the text.
-/

namespace BBCode

/-- A text of breaks that starts with none is empty. -/
theorem Breaks.eq_nil {q : Text} (h : Breaks q) (hq : Text.readBreak? lineBreak q = none) :
    q = [] := by
  cases h with
  | nil => rfl
  | markup _ => cases hq
  | lineFeed _ => cases hq
  | carriageReturn _ => cases hq

namespace Text

/-- The spellings of a line break. -/
def breaks : List Text := [lineBreak, ['\n'], ['\r']]

/-- A text cut into breaks in front, a core that neither starts nor ends with a break, and breaks
behind. -/
structure Cut (s p core q : Text) : Prop where
  source : s = p ++ core ++ q
  front : Breaks p
  back : Breaks q
  start : ∀ b ∈ breaks, ¬ b <+: core
  stop : ∀ b ∈ breaks, ¬ b <:+ core
  /-- Breaks around nothing stand in front of it. -/
  back_nil : core = [] → q = []

variable {s p core q : Text}

/-! ## No break at an end -/

/-- No break is read where none of its spellings stands. -/
theorem readBreak?_eq_none_iff {w : Text} :
    readBreak? w s = none ↔ ∀ b ∈ [w, ['\n'], ['\r']], ¬ b <+: s := by
  constructor
  · intro h b hb
    simp only [List.mem_cons, List.not_mem_nil, or_false] at hb
    have hword : ∀ r, s = w ++ r → readBreak? w s = some r := by
      rintro r rfl
      have hread : readWord? id w (w ++ r) = some (w, r) :=
        readWord?_eq_some.2 ⟨List.map_id w, rfl⟩
      unfold readBreak?
      rw [hread]
    have hline : ∀ c r, isNewline c = true → s = c :: r → readBreak? w s ≠ none := by
      rintro c r hc rfl
      unfold readBreak?
      cases readWord? id w (c :: r) <;> simp [hc]
    rintro ⟨r, hr⟩
    rcases hb with rfl | rfl | rfl
    · rw [hword r hr.symm] at h
      cases h
    · exact hline '\n' r rfl hr.symm h
    · exact hline '\r' r rfl hr.symm h
  · intro h
    refine readBreak?_eq_none (fun r hr => ?_) (fun r hr => ?_) (fun r hr => ?_)
    · exact h w (by simp) ⟨r, hr.symm⟩
    · exact h ['\n'] (by simp) ⟨r, hr.symm⟩
    · exact h ['\r'] (by simp) ⟨r, hr.symm⟩

theorem start_iff : (∀ b ∈ breaks, ¬ b <+: s) ↔ readBreak? lineBreak s = none :=
  readBreak?_eq_none_iff.symm

/-- What a text ends with, its reverse starts with. -/
theorem stop_iff : (∀ b ∈ breaks, ¬ b <:+ s) ↔ readBreak? lineBreak.reverse s.reverse = none := by
  have hmap : [lineBreak.reverse, ['\n'], ['\r']] = breaks.map List.reverse := rfl
  rw [readBreak?_eq_none_iff, hmap, List.forall_mem_map]
  exact forall₂_congr fun b _ => not_congr List.reverse_prefix.symm

/-! ## Cuts -/

namespace Cut

/-- The core of a cut is what trimming leaves. -/
theorem trimBreaks_eq (h : Cut s p core q) : s.trimBreaks = core := by
  have hstart : core.trimStart = core := trimStart_of_readBreak? (start_iff.1 h.start)
  have hstop : core.trimEnd = core := by
    rw [trimEnd, trimReversed_eq, stop_iff.1 h.stop, List.reverse_reverse]
  have hcore : core.trimBreaks = core := by rw [trimBreaks, hstart, hstop]
  rw [h.source, List.append_assoc]
  exact h.front.trimBreaks_append h.back hcore

/-- No break can be read across the end of the core. -/
theorem trimStart_eq (h : Cut s p core q) : s.trimStart = core ++ q := by
  have hnone : readBreak? lineBreak (core ++ q) = none := by
    by_cases hcore : core = []
    · rw [hcore, h.back_nil hcore]
      rfl
    · have happend := readBreak?_append (p := '<') hcore h.back.head_not_mem
      exact happend.trans (congrArg _ (start_iff.1 h.start))
  rw [h.source, List.append_assoc, h.front.trimStart_append, trimStart_of_readBreak? hnone]

theorem unique {p' core' q' : Text} (h : Cut s p core q) (h' : Cut s p' core' q') :
    p = p' ∧ core = core' ∧ q = q' := by
  have hcore : core = core' := h.trimBreaks_eq.symm.trans h'.trimBreaks_eq
  subst hcore
  have hq : q = q' := List.append_cancel_left (h.trimStart_eq.symm.trans h'.trimStart_eq)
  subst hq
  have hsource := h.source.symm.trans h'.source
  rw [List.append_assoc, List.append_assoc] at hsource
  exact ⟨List.append_cancel_right hsource, rfl, rfl⟩

end Cut

/-- Every text can be cut. -/
theorem exists_cut (s : Text) : ∃ p q, Cut s p s.trimBreaks q := by
  obtain ⟨p, hp, hs⟩ := trimStart_append s
  obtain ⟨q, hq, hm⟩ := trimEnd_append s.trimStart
  have hfirst : readBreak? lineBreak s.trimStart = none := readBreak?_trimStart s
  refine ⟨p, q, ?_, hp, hq, start_iff.2 ?_, stop_iff.2 ?_, fun hcore => hq.eq_nil ?_⟩
  · rw [List.append_assoc]
    exact hs.trans (congrArg (p ++ ·) hm)
  · rw [trimBreaks, ← trimStart_trimEnd]
    exact readBreak?_trimStart _
  · rw [trimBreaks, trimEnd, List.reverse_reverse]
    exact readBreak?_trimReversed _
  · rw [hm, show s.trimStart.trimEnd = [] from hcore, List.nil_append] at hfirst
    exact hfirst

/-- A text has exactly one cut, and its core is what trimming leaves. So trimming once is enough,
the end can be trimmed before the start, and breaks added at the ends make no difference. -/
theorem trimBreaks_exact (s : Text) :
    (∃! x : Text × Text × Text, Cut s x.1 x.2.1 x.2.2) ∧
      (∀ p core q, Cut s p core q → s.trimBreaks = core) ∧
      s.trimBreaks.trimBreaks = s.trimBreaks ∧
      s.trimEnd.trimStart = s.trimBreaks ∧
      ∀ p q, Breaks p → Breaks q → (p ++ s ++ q).trimBreaks = s.trimBreaks := by
  obtain ⟨p, q, hcut⟩ := exists_cut s
  refine ⟨⟨(p, s.trimBreaks, q), hcut, ?_⟩, fun _ _ _ h => h.trimBreaks_eq,
    trimBreaks_trimBreaks s, trimStart_trimEnd s, fun p' q' hp hq => ?_⟩
  · rintro ⟨p', core', q'⟩ h'
    obtain ⟨rfl, rfl, rfl⟩ := h'.unique hcut
    rfl
  · -- the breaks that are added join those that are there
    have hsource : p' ++ s ++ q' = p' ++ p ++ (s.trimBreaks ++ (q ++ q')) := by
      conv => lhs; rw [hcut.source]
      simp only [List.append_assoc]
    rw [hsource]
    exact (hp.append hcut.front).trimBreaks_append (hcut.back.append hq) (trimBreaks_trimBreaks s)

/-- Pieces of the markup at the ends of the core are no breaks, also with breaks next to them. -/
theorem trimBreaks_exact_pieces :
    Cut "<br>\r<br<br>r>\n<br>".toList "<br>\r".toList "<br<br>r>".toList "\n<br>".toList ∧
      trimBreaks "<br>\r<br<br>r>\n<br>".toList = "<br<br>r>".toList ∧
      trimBreaks ("<br>\n".toList ++ "<br>\r<br<br>r>\n<br>".toList ++ "\r".toList) =
        trimBreaks "<br>\r<br<br>r>\n<br>".toList := by
  have hmarkup : Breaks "<br>\n".toList := .markup (.lineFeed .nil)
  have hend : Breaks "\r".toList := .carriageReturn .nil
  have hcut : Cut "<br>\r<br<br>r>\n<br>".toList "<br>\r".toList "<br<br>r>".toList
      "\n<br>".toList :=
    { source := by decide
      front := .markup (.carriageReturn .nil)
      back := .lineFeed (.markup .nil)
      start := by decide
      stop := by decide
      back_nil := by decide }
  obtain ⟨-, hcore, -, -, hpadded⟩ := trimBreaks_exact "<br>\r<br<br>r>\n<br>".toList
  exact ⟨hcut, hcore _ _ _ hcut, hpadded _ _ hmarkup hend⟩

end Text

end BBCode
