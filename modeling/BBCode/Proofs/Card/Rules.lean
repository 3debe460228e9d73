import BBCode.Proofs.Card.Mark

/-!
# BBCode.Proofs.Card.Rules

What rules do to the numbers of hover cards. A pair of tags starts and ends with a bracket, and so
does its value or with another mark that no number goes on in; hence what is captured is complete
by itself. A rule that puts clear markup around its parts, each of them once, makes no occurrence.

* `readPair?_parts`: the text of a pair of tags in its parts.
* `Mark.of_readPair?`: the parts of a pair are complete, and nothing is in two of them.
* `Mark.safe_pair`: a pair of tags that becomes markup around its parts.
* `Mark.Cuts.spares`: a word or a tag that becomes markup.
-/

namespace BBCode.Card

/-! ## Pairs of tags -/

/-- The text of an opening tag in its parts. -/
theorem readOpening?_parts {t : TagPair} {s o p r : Text} (h : t.readOpening? s = some (o, p, r)) :
    ∃ head mark, s = '[' :: (head ++ (p ++ (mark ++ r))) ∧
      (∀ v ∈ t.value, mark = v.after) ∧ (t.value = none → p = []) := by
  unfold TagPair.readOpening? at h
  split at h
  · rename_i hnone
    simp only [Option.map_eq_some_iff, Prod.mk.injEq] at h
    obtain ⟨⟨w, q⟩, hw, rfl, rfl, rfl⟩ := h
    obtain ⟨hmap, rfl⟩ := readWord?_eq_some.1 hw
    obtain ⟨u, rfl, -⟩ := map_foldCase_eq_cons (by decide) hmap
    exact ⟨u, [], rfl, by simp [hnone], fun _ => rfl⟩
  · rename_i v hv
    split at h
    · cases h
    · rename_i head q hhead
      obtain ⟨hmap, rfl⟩ := readWord?_eq_some.1 hhead
      obtain ⟨u, rfl, -⟩ := map_foldCase_eq_cons (by decide) hmap
      split at h
      · cases h
      · rename_i value mark rest hn
        obtain ⟨rfl, hmark⟩ := nearest?_append hn
        rw [List.map_id] at hmark
        split at h
        · cases h
          exact ⟨u, mark, by simp, by simp [hv, hmark], by simp [hv]⟩
        · cases h

/-- The text of a pair of tags in its parts. -/
theorem readPair?_parts {t : TagPair} {s r : Text} {a : Region} (h : t.readPair? s = some (a, r)) :
    ∃ head mark rest, s = '[' :: (head ++ (a.param ++ (mark ++ (a.body ++ '[' :: rest)))) ∧
      r <:+ rest ∧ (∀ v ∈ t.value, mark = v.after) ∧ (t.value = none → a.param = []) := by
  unfold TagPair.readPair? at h
  split at h
  · cases h
  · rename_i o p q hq
    obtain ⟨head, mark, rfl, hmark, hnone⟩ := readOpening?_parts hq
    simp only [Option.map_eq_some_iff, Prod.mk.injEq] at h
    obtain ⟨⟨body, closing, r'⟩, hclose, rfl, rfl⟩ := h
    obtain ⟨rfl, hmap⟩ := nearest?_append hclose
    obtain ⟨z, rfl, -⟩ := map_foldCase_eq_cons (by decide) hmap
    exact ⟨head, mark, z ++ r', by simp, List.suffix_append z r', hmark, hnone⟩

namespace Mark

variable {T : Mark} {α : Type} {p : Pattern Char α} {o : Options} {s r : Text}

/-- A step that makes no occurrences of the mark. -/
def Safe (T : Mark) (F : Text × Tally → Text × Tally) : Prop := ∀ x, T.Spares x.1 (F x).1

theorem Safe.foldl {β : Type} {F : Text × Tally → β → Text × Tally} {as : List β}
    (h : ∀ a ∈ as, T.Safe fun x => F x a) : T.Safe fun x => as.foldl F x := by
  induction as with
  | nil => exact fun x => .refl x.1
  | cons a as ih =>
    obtain ⟨ha, has⟩ := List.forall_mem_cons.1 h
    exact fun x => (ha x).trans (ih has (F x a))

/-! ## Words and tag breaks -/

/-- What the pattern finds starts with a bar. -/
def Cuts (T : Mark) (p : Pattern Char α) : Prop :=
  ∀ s a r, p.read? s = some (a, r) → T.Barred s ∧ r <:+ s

namespace Cuts

theorem map {β : Type} (hp : T.Cuts p) (g : α → β) : T.Cuts (p.map g) := by
  intro s a r h
  simp only [Pattern.map, Option.map_eq_some_iff, Prod.mk.injEq] at h
  obtain ⟨⟨b, q⟩, hq, -, rfl⟩ := h
  exact hp s b q hq

theorem word {f : Char → Char} {w : Text} {hw : w ≠ []}
    (hbar : ∀ c, some (f c) = w.head? → T.Bars c) : T.Cuts (Pattern.word f w hw) := by
  intro s a r h
  obtain ⟨hmap, rfl⟩ := readWord?_eq_some.1 h
  refine ⟨?_, List.suffix_append a r⟩
  cases a with
  | nil => exact absurd hmap.symm hw
  | cons c a =>
    rintro d ⟨⟩
    exact hbar c (by rw [← hmap]; rfl)

theorem tagBreak (tag : Text) : T.Cuts (Rule.tagBreak ('<' :: tag)) := by
  intro s a r h
  change Rule.readTagBreak? ('<' :: tag) s = some (a, r) at h
  unfold Rule.readTagBreak? at h
  split at h
  · cases h
  · rename_i w q hq
    obtain ⟨hw, rfl⟩ := readWord?_eq_some.1 hq
    simp only [Option.map_eq_some_iff, Prod.mk.injEq] at h
    obtain ⟨y, hy, -, rfl⟩ := h
    have hbreak : y.2 <:+ q.dropWhile isBlank :=
      (readWord?_eq_some.1 hy).2 ▸ List.suffix_append y.1 y.2
    rw [List.map_id] at hw
    exact ⟨hw ▸ barred_cons (by decide) (by decide) _,
      (hbreak.trans (List.dropWhile_suffix isBlank)).trans (List.suffix_append w q)⟩

theorem spares (hp : T.Cuts p) {f : α → Text} (hf : ∀ a, T.Wedge (f a) 0) (s : Text) :
    T.Spares s (p.substitute f s) := by
  refine spares_substitute fun {t a r} _ hread => ?_
  obtain ⟨hbar, hr⟩ := hp t a r hread
  refine .of_wedge hbar hr (hf a) ?_
  rw [Nat.zero_add]
  exact count_suffix hr

end Cuts

/-! ## Pairs of tags -/

/-- What is in a pair of tags is complete, and is not counted twice. -/
theorem of_readPair? {t : TagPair} {a : Region} (h : t.readPair? s = some (a, r))
    (hvalue : ∀ v ∈ t.value, ∃ c ∈ v.after.head?, T.Bars c) (hs : T.Holds s) :
    T.Barred s ∧ r <:+ s ∧ T.Holds a.param ∧ T.Holds a.body ∧
      T.count a.param + T.count a.body + T.count r ≤ T.count s := by
  obtain ⟨head, mark, rest, rfl, hr, hmark, hnone⟩ := readPair?_parts h
  have hbar : ∀ x, T.Barred ('[' :: x) := barred_cons (by decide) (by decide)
  have hinner : a.param ++ (mark ++ (a.body ++ '[' :: rest)) <:+
      '[' :: (head ++ (a.param ++ (mark ++ (a.body ++ '[' :: rest)))) :=
    (List.suffix_append head _).trans (List.suffix_cons '[' _)
  have hbody : a.body ++ '[' :: rest <:+ a.param ++ (mark ++ (a.body ++ '[' :: rest)) :=
    (List.suffix_append mark _).trans (List.suffix_append a.param _)
  have hrest : r <:+ '[' :: rest := hr.trans (List.suffix_cons '[' rest)
  refine ⟨hbar _, hrest.trans ((List.suffix_append a.body _).trans (hbody.trans hinner)), ?_,
    ((hs.of_suffix hinner).of_suffix hbody).left (hbar rest), ?_⟩
  · cases hv : t.value with
    | none =>
      rw [hnone hv]
      exact .nil
    | some v =>
      obtain ⟨c, hc, hcbar⟩ := hvalue v hv
      obtain ⟨u, hu⟩ := List.head?_eq_some_iff.1 hc
      refine (hs.of_suffix hinner).left ?_
      rw [hmark v hv, hu]
      rintro d ⟨⟩
      exact hcbar
  · have h1 := T.add_count_le a.body ('[' :: rest)
    have h2 := T.add_count_le a.param (mark ++ (a.body ++ '[' :: rest))
    have h3 := count_suffix (T := T) (List.suffix_append mark (a.body ++ '[' :: rest))
    have h4 := count_suffix (T := T) hinner
    have h5 := count_suffix (T := T) hrest
    omega

/-- What replaces a pair of tags by markup around its parts. -/
theorem safe_pair {name : String} {t : TagPair} {f : Region → Text}
    (hvalue : ∀ v ∈ t.value, ∃ c ∈ v.after.head?, T.Bars c)
    (hf : ∀ a : Region, T.Holds a.param → T.Holds a.body →
      f a = a.source ∨ ∃ n ≤ T.count a.param + T.count a.body, T.Wedge (f a) n) :
    T.Safe ((Rule.mk name t.pattern (.replace f)).apply o) := by
  intro x hx
  refine spares_substitute (fun {u a r} hu hread => ?_) hx
  obtain ⟨hbar, hr, hparam, hbody, hcount⟩ := of_readPair? hread hvalue (hx.of_suffix hu)
  rcases hf a hparam hbody with hsource | ⟨n, hn, hz⟩
  · rw [hsource]
    exact .same (TagPair.readPair?_source hread).1 (Nat.le_refl 0)
  · exact .of_wedge hbar hr hz (by omega)

theorem safe_bare {name tag : String} {f : Text → Text}
    (hf : ∀ b, T.Holds b → ∃ n ≤ T.count b, T.Wedge (f b) n) :
    T.Safe ((Rule.bare name tag f).apply o) := by
  refine safe_pair (fun _ hv => absurd hv (Option.not_mem_none _)) fun a _ hbody => ?_
  obtain ⟨n, hn, hz⟩ := hf a.body hbody
  exact .inr ⟨n, Nat.le_trans hn (Nat.le_add_left ..), hz⟩

theorem safe_valued {name tag : String} {form : ValueForm} {f : Text → Text → Text}
    (hform : ∃ c ∈ form.after.head?, T.Bars c)
    (hf : ∀ p b, T.Holds p → T.Holds b → ∃ n ≤ T.count p + T.count b, T.Wedge (f p b) n) :
    T.Safe ((Rule.valued name tag form f).apply o) := by
  refine safe_pair (fun v hv => ?_) fun a hparam hbody => .inr (hf a.param a.body hparam hbody)
  cases hv
  exact hform

/-- Trimming takes nothing that completes an occurrence. -/
theorem spares_trimBreaks (s : Text) : T.Spares s s.trimBreaks := by
  intro hs
  obtain ⟨p, q, -, hq, heq⟩ := s.trimBreaks_append
  rw [List.append_assoc] at heq
  have hmid : s.trimBreaks ++ q <:+ s := by
    conv => rhs; rw [heq]
    exact List.suffix_append p _
  have hle := T.add_count_le s.trimBreaks q
  have hsuf := count_suffix (T := T) hmid
  exact ⟨(hs.of_suffix hmid).left (barred_breaks hq), by omega⟩

theorem Wedge.between_trim {before after b : Text} (hb : T.Holds b)
    (h : (isClear before && isClear after) = true) : ∃ n ≤ T.count b,
      T.Wedge (Rule.between (String.ofList before) (String.ofList after) b.trimBreaks) n := by
  obtain ⟨htrim, hle⟩ := spares_trimBreaks b hb
  exact ⟨_, hle, .between htrim h⟩

/-! ## Rules -/

theorem safe_respell {name : String} {f : Char → Char} {w by_ : Text} {hw : w ≠ []}
    (hbar : ∀ c, some (f c) = w.head? → T.Bars c) (h : isClear by_ = true) :
    T.Safe ((Rule.respell name f w hw by_).apply o) := by
  have hcuts : T.Cuts (Pattern.word f w hw) := .word hbar
  exact fun x => (hcuts.map fun s => ({ opening := s } : Region)).spares (fun _ => .fixed h) x.1

theorem safe_between {name tag : String} {before after : Text}
    (h : (isClear before && isClear after) = true) :
    T.Safe ((Rule.bare name tag
      (Rule.between (String.ofList before) (String.ofList after))).apply o) :=
  safe_bare fun _ hb => ⟨_, Nat.le_refl _, .between hb h⟩

theorem safe_dropBreakAfter {name : String} {tag : Text} (h : isClear ('<' :: tag) = true) :
    T.Safe ((Rule.dropBreakAfter name (String.ofList ('<' :: tag))).apply o) := by
  have hcuts : T.Cuts (Rule.tagBreak (String.ofList ('<' :: tag)).toList) := by
    rw [String.toList_ofList]
    exact .tagBreak tag
  refine fun x => (hcuts.map fun s => ({ opening := s } : Region)).spares (fun _ => ?_) x.1
  exact .literal h

end Mark

end BBCode.Card
