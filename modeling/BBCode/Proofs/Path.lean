import BBCode.Path

/-!
# BBCode.Proofs.Path

Paths put together from names: the segments and the components of what lies below a folder, the
place of an output, and that no output is called like a source.

Main statements: `segments_below`, `segments_resolve`, `outputPath?_below` and
`isSourceName_replaceExtension`.
-/

namespace BBCode

namespace Text

variable {sep : Char} {a b s : Text}

theorem splitAt_append : splitAt sep (a ++ sep :: b) = splitAt sep a ++ splitAt sep b := by
  induction a with
  | nil => simp [splitAt]
  | cons c a ih =>
    rw [List.cons_append, splitAt, splitAt, ih]
    by_cases hc : c = sep
    · simp [hc]
    · cases hs : splitAt sep a with
      | nil => exact absurd hs (splitAt_ne_nil sep a)
      | cons p ps => simp [hc]

theorem not_mem_of_mem_splitAt (h : a ∈ splitAt sep s) : sep ∉ a := by
  induction s generalizing a with
  | nil =>
    rw [splitAt, List.mem_singleton] at h
    simp [h]
  | cons c s ih =>
    rw [splitAt] at h
    split at h
    · rcases List.mem_cons.1 h with rfl | h
      · exact List.not_mem_nil
      · exact ih h
    · rename_i hc
      split at h
      · rw [List.mem_singleton.1 h, List.mem_singleton]
        exact Ne.symm hc
      · rename_i p ps hs
        rcases List.mem_cons.1 h with rfl | h
        · rw [List.mem_cons, not_or]
          exact ⟨Ne.symm hc, ih (by simp [hs])⟩
        · exact ih (by simp [hs, h])

theorem splitAt_of_not_mem (h : sep ∉ s) : splitAt sep s = [s] := by
  induction s with
  | nil => rfl
  | cons c s ih =>
    rw [List.mem_cons, not_or] at h
    rw [splitAt, if_neg (Ne.symm h.1), ih h.2]

end Text

/-- The last occurrence of a character is found where it does not occur again. -/
theorem farthest?_of_not_mem {c : Char} {b r : Text} (h : c ∉ r) :
    farthest? id [c] (b ++ c :: r) = some (b, [c], r) := by
  have hr : farthest? id [c] r = none := by
    induction r with
    | nil => rfl
    | cons x r ih =>
      rw [List.mem_cons, not_or] at h
      simp [farthest?, ih h.2, readWord?, Ne.symm h.1]
  induction b with
  | nil => simp [farthest?, hr, readWord?]
  | cons x b ih => simp [farthest?, ih]

namespace Path

/-- What an entry of a folder can be called. -/
structure IsName (n : Text) : Prop where
  ne_nil : n ≠ []
  no_slash : '/' ∉ n
  ne_dot : n ≠ dot
  ne_dots : n ≠ dots

instance (n : Text) : Decidable (IsName n) :=
  decidable_of_iff (n ≠ [] ∧ '/' ∉ n ∧ n ≠ dot ∧ n ≠ dots)
    ⟨fun ⟨h1, h2, h3, h4⟩ => ⟨h1, h2, h3, h4⟩, fun ⟨h1, h2, h3, h4⟩ => ⟨h1, h2, h3, h4⟩⟩

variable {p root : Path} {n t ext : Text} {names pre : List Text}

theorem segments_append (a b : Text) : segments (a ++ '/' :: b) = segments a ++ segments b := by
  rw [segments, Text.splitAt_append, List.filter_append]
  rfl

/-- What stands between slashes. -/
def IsSegment (n : Text) : Prop := n ≠ [] ∧ '/' ∉ n

theorem isSegment_of_mem (h : n ∈ segments t) : IsSegment n := by
  obtain ⟨hmem, hne⟩ := List.mem_filter.1 h
  exact ⟨by simpa using hne, Text.not_mem_of_mem_splitAt hmem⟩

theorem IsName.isSegment (h : IsName n) : IsSegment n := ⟨h.ne_nil, h.no_slash⟩

theorem IsSegment.segments (h : IsSegment n) : segments n = [n] := by
  rw [Path.segments, Text.splitAt_of_not_mem h.2]
  simp [h.1]

theorem IsName.segments (h : IsName n) : segments n = [n] := h.isSegment.segments

theorem IsSegment.head?_ne (h : IsSegment n) : n.head? ≠ some '/' := by
  intro hc
  exact h.2 (List.mem_of_head? hc)

theorem segments_child (h : IsName n) : segments (child p n).text = segments p.text ++ [n] := by
  unfold child
  by_cases hp : p.text = []
  · simp [hp, h.segments]
    rfl
  · by_cases hl : p.text.getLast? = some '/'
    · obtain ⟨s, hs⟩ := List.getLast?_eq_some_iff.1 hl
      have hs' : segments p.text = segments s := by
        rw [hs, segments_append]
        simp [Path.segments, Text.splitAt]
      simp only [hl, decide_true, Bool.or_true, if_true]
      rw [hs', hs, List.append_assoc, List.singleton_append, segments_append, h.segments]
    · simp [hp, hl, segments_append, h.segments]

theorem isAbsolute_child (hp : p.text ≠ []) : (child p n).isAbsolute = p.isAbsolute := by
  obtain ⟨c, s, hs⟩ := List.exists_cons_of_ne_nil hp
  unfold isAbsolute child
  split <;> simp [hs]

theorem text_child_ne_nil (hp : p.text ≠ []) : (child p n).text ≠ [] := by
  unfold child
  split <;> simp [hp]

theorem segments_below (h : ∀ n ∈ names, IsName n) :
    segments (below p names).text = segments p.text ++ names := by
  induction names generalizing p with
  | nil => simp [below]
  | cons n names ih =>
    rw [below, List.foldl_cons, ← below, ih fun m hm => h m (by simp [hm]),
      segments_child (h n (by simp)), List.append_assoc, List.singleton_append]

theorem isAbsolute_below (hp : p.text ≠ []) : (below p names).isAbsolute = p.isAbsolute := by
  induction names generalizing p with
  | nil => rfl
  | cons n names ih =>
    rw [below, List.foldl_cons, ← below, ih (text_child_ne_nil hp), isAbsolute_child hp]

theorem named_append (h : ∀ n ∈ names, IsName n) (ss : List Text) :
    named (ss ++ names) = named ss ++ names.map .name := by
  have hf : names.filter (· ≠ dot) = names := by
    rw [List.filter_eq_self]
    intro n hn
    simp [(h n hn).ne_dot]
  rw [named, List.filter_append, List.map_append, hf]
  congr 1
  refine List.map_congr_left fun n hn => ?_
  rw [if_neg (h n hn).ne_dots]

theorem components_below (hp : p.text ≠ []) (h : ∀ n ∈ names, IsName n) :
    (below p names).components = p.components ++ names.map .name := by
  unfold components
  rw [segments_below h, isAbsolute_below hp]
  by_cases ha : p.isAbsolute
  · simp [ha, named_append h]
  · cases hs : segments p.text with
    | nil =>
      have hd : names.head? ≠ some dot := by
        intro hd
        exact (h dot (List.mem_of_head? hd)).ne_dot rfl
      simpa [ha, hd, named] using named_append h []
    | cons s ss =>
      by_cases hd : s = dot
      · simp [ha, hd, named_append h]
      · simp only [ha, List.cons_append, List.head?_cons, Option.some.injEq, hd, if_false]
        exact named_append h (s :: ss)

theorem retarget_names :
    retarget ext ((pre ++ [n]).map .name) = pre ++ [replaceExtension ext n] := by
  induction pre with
  | nil => rfl
  | cons m pre ih =>
    obtain ⟨c, cs, hc⟩ :=
      List.exists_cons_of_ne_nil (l := (pre ++ [n]).map Component.name) (by simp)
    rw [List.cons_append, List.map_cons, hc, retarget, ← hc, ih]
    rfl
    · simp

/-- The output lies below the output folder as the file does below its root. -/
theorem outputPath?_names {file : Path}
    (h : file.components = root.components ++ (pre ++ [n]).map .name) :
    outputPath? root file = some (Text.join ['/'] (pre ++ [replaceExtension "html".toList n])) := by
  have hroot : Component.root ∉ (pre ++ [n]).map Component.name := by simp
  rw [outputPath?, outputSegments?, dropPrefix?_eq_some.2 h]
  simp only [List.contains_iff_mem, hroot, if_false, Option.map_some, retarget_names]

theorem outputPath?_below (hp : root.text ≠ []) (h : ∀ m ∈ pre ++ [n], IsName m) :
    outputPath? root (below root (pre ++ [n])) =
      some (Text.join ['/'] (pre ++ [replaceExtension "html".toList n])) :=
  outputPath?_names (components_below hp h)

theorem segments_join (h : ∀ n ∈ names, IsName n) : segments (Text.join ['/'] names) = names := by
  induction names with
  | nil => rfl
  | cons n names ih =>
    have hn := (h n (by simp)).segments
    cases names with
    | nil => exact hn
    | cons m names =>
      rw [Text.join, List.append_assoc, List.singleton_append, segments_append, hn,
        ih fun k hk => h k (List.mem_cons_of_mem _ hk)]
      rfl

theorem segments_step (h : IsSegment n) :
    segments (if p.text.isEmpty then Path.mk n else ⟨p.text ++ '/' :: n⟩).text =
      segments p.text ++ [n] := by
  cases hp : p.text with
  | nil =>
    rw [List.isEmpty_nil, if_pos rfl, h.segments]
    rfl
  | cons c s =>
    rw [List.isEmpty_cons, if_neg Bool.false_ne_true, segments_append, h.segments]

theorem isAbsolute_step (h : IsSegment n) :
    (if p.text.isEmpty then Path.mk n else ⟨p.text ++ '/' :: n⟩).isAbsolute = p.isAbsolute := by
  cases hp : p.text with
  | nil => simp [isAbsolute, hp, h.head?_ne]
  | cons c s => simp [isAbsolute, hp]

theorem segments_resolve (root : Path) (t : Text) :
    segments (resolve root t).text = segments root.text ++ segments t := by
  have hnames : ∀ n ∈ segments t, IsSegment n := fun n => isSegment_of_mem
  unfold resolve
  generalize segments t = names at hnames
  induction names generalizing root with
  | nil => rw [List.foldl_nil, List.append_nil]
  | cons n names ih =>
    obtain ⟨hn, hnames⟩ := List.forall_mem_cons.1 hnames
    rw [List.foldl_cons, ih _ hnames, segments_step hn, List.append_assoc, List.singleton_append]

theorem isAbsolute_resolve (root : Path) (t : Text) :
    (resolve root t).isAbsolute = root.isAbsolute := by
  have hnames : ∀ n ∈ segments t, IsSegment n := fun n => isSegment_of_mem
  unfold resolve
  generalize segments t = names at hnames
  induction names generalizing root with
  | nil => rfl
  | cons n names ih =>
    obtain ⟨hn, hnames⟩ := List.forall_mem_cons.1 hnames
    rw [List.foldl_cons, ih _ hnames, isAbsolute_step hn]

/-- What is dropped at the end of a path starts with a slash. -/
theorem dropEnd_eq (s : Text) : dropEnd s = s ∨ ∃ b, s = b ++ '/' :: dropEnd s := by
  fun_induction dropEnd s with
  | case1 r ih =>
    rcases ih with h | ⟨b, h⟩
    · exact .inr ⟨[], by rw [h]; rfl⟩
    · exact .inr ⟨'/' :: b, congrArg ('/' :: ·) h⟩
  | case2 r ih =>
    rcases ih with h | ⟨b, h⟩
    · exact absurd (by rw [h]; rfl) (head?_dropEnd ('/' :: r))
    · exact .inr ⟨'.' :: b, congrArg ('.' :: ·) h⟩
  | case3 r _ _ => exact .inl rfl

/-- The folder that a path lies in is spelled by the start of the path, up to a slash. -/
theorem parent?_text {q : Path} (h : p.parent? = some q) (hq : q.text ≠ []) :
    (q.text = ['/'] ∧ p.isAbsolute = true) ∨ ∃ r, p.text = q.text ++ '/' :: r := by
  unfold parent? at h
  split at h
  · cases h
  · rename_i c r hend
    dsimp only at h
    split at h
    · rename_i habs
      cases h
      rw [Bool.and_eq_true] at habs
      exact .inl ⟨rfl, habs.2⟩
    · cases h
      have hname : c :: r <:+ p.text.reverse := by
        rcases dropEnd_eq p.text.reverse with h | ⟨b, h⟩
        · exact ⟨[], hend.symm.trans h⟩
        · rw [h, hend]
          exact ⟨b ++ ['/'], by simp⟩
      have hslash : (c :: r).dropWhile (· ≠ '/') <:+ p.text.reverse :=
        (List.dropWhile_suffix _).trans hname
      have hhead : ∀ d ∈ ((c :: r).dropWhile (· ≠ '/')).head?, d = '/' := by
        intro d hd
        have hdrop := List.head?_dropWhile_not (fun x : Char => decide (x ≠ '/')) (c :: r)
        rw [hd] at hdrop
        simpa using hdrop
      generalize (c :: r).dropWhile (· ≠ '/') = x at hslash hq hhead ⊢
      obtain ⟨a, ha⟩ := hslash
      rcases dropEnd_eq x with hx | ⟨b, hx⟩
      · -- a slash in front would have been dropped
        cases x with
        | nil => exact absurd rfl hq
        | cons d x =>
          have hd := hhead d rfl
          subst hd
          have hdrop := head?_dropEnd ('/' :: x)
          rw [hx] at hdrop
          exact absurd rfl hdrop
      · refine .inr ⟨(a ++ b).reverse, ?_⟩
        rw [← List.reverse_reverse p.text, ← ha]
        conv => lhs; rw [hx]
        simp

/-- Whether a path starts at the root is a matter of its first character. -/
theorem isAbsolute_of_starts {q : Path} (hq : q.text ≠ []) (h : q.text <+: p.text) :
    q.isAbsolute = p.isAbsolute := by
  obtain ⟨r, hp⟩ := h
  obtain ⟨c, t, ht⟩ := List.exists_cons_of_ne_nil hq
  rw [isAbsolute, isAbsolute, ← hp, ht]
  rfl

theorem prefix_of_mem_folders {q : Path} (h : q ∈ p.folders) :
    q.isAbsolute = p.isAbsolute ∧ segments q.text <+: segments p.text := by
  fun_induction folders p with
  | case1 p hp => cases h
  | case2 p hp hn =>
    rw [List.mem_singleton.1 h]
    exact ⟨rfl, List.prefix_rfl⟩
  | case3 p hp r hr ih =>
    rcases List.mem_cons.1 h with rfl | h
    · exact ⟨rfl, List.prefix_rfl⟩
    · have hne : r.text ≠ [] := by
        intro hnil
        rw [folders, if_pos (by simp [hnil])] at h
        cases h
      obtain ⟨habs, hsegments⟩ := ih h
      rcases parent?_text hr hne with ⟨hroot, habs'⟩ | ⟨rest, hp⟩
      · have hnil : segments r.text = [] := by
          rw [hroot]
          rfl
        rw [hnil, List.prefix_nil] at hsegments
        rw [hsegments, habs, habs', isAbsolute, hroot]
        exact ⟨rfl, List.nil_prefix⟩
      · refine ⟨habs.trans (isAbsolute_of_starts hne ⟨'/' :: rest, hp.symm⟩), hsegments.trans ?_⟩
        rw [hp, segments_append]
        exact List.prefix_append _ _

theorem folders_cons {q : Path} (hp : p.text ≠ []) (hq : p.parent? = some q) :
    p.folders = p :: q.folders := by
  rw [folders, if_neg (by simpa using hp)]
  split
  · rename_i hn
    rw [hq] at hn
    cases hn
  · rename_i r hr
    rw [hq] at hr
    cases hr
    rfl

theorem folders_pair {q : Path} (hp : p.text ≠ []) (hq : q.text ≠ []) (hpq : p.parent? = some q)
    (htop : q.parent? = some ⟨[]⟩) : p.folders = [p, q] := by
  rw [folders_cons hp hpq, folders_cons hq htop, folders]
  rfl

theorem splitName?_eq_some {stem : Text} (h : splitName? n = some (stem, ext)) :
    stem ≠ [] ∧ n = stem ++ '.' :: ext := by
  unfold splitName? at h
  split at h
  · rename_i b d r hf
    split at h
    · cases h
    · rename_i hb
      cases h
      obtain ⟨hn, hd⟩ := farthest?_append hf
      rw [List.map_id] at hd
      refine ⟨by simpa using hb, ?_⟩
      rw [hn, hd]
      simp [dot]
  · cases h

theorem splitName?_of_isSourceName (h : isSourceName n = true) :
    ∃ stem ext, splitName? n = some (stem, ext) := by
  rw [isSourceName] at h
  split at h
  · rename_i stem ext hs
    exact ⟨stem, ext, hs⟩
  · cases h

/-- A name is split at its last dot, unless nothing stands before it. -/
theorem splitName?_append {stem : Text} (hs : stem ≠ []) (h : '.' ∉ ext) :
    splitName? (stem ++ '.' :: ext) = some (stem, ext) := by
  rw [splitName?, dot, farthest?_of_not_mem h]
  simp [hs]

theorem not_mem_of_splitName? {stem : Text} (h : splitName? n = some (stem, ext)) :
    '.' ∉ ext := by
  intro hdot
  obtain ⟨hs, hn⟩ := splitName?_eq_some h
  obtain ⟨r, a, hr, hlast⟩ := List.eq_append_cons_of_mem (List.mem_reverse.2 hdot)
  have hext : ext = a.reverse ++ '.' :: r.reverse := by
    rw [← List.reverse_reverse ext, hr]
    simp
  have hsplit : splitName? n = some (stem ++ '.' :: a.reverse, r.reverse) := by
    rw [hn, hext, ← splitName?_append (by simp) (by simpa using hlast)]
    simp
  rw [h, Option.some.injEq, Prod.mk.injEq] at hsplit
  have hlength := congrArg List.length (hsplit.2.symm.trans hext)
  simp only [List.length_append, List.length_cons, List.length_reverse] at hlength
  omega

/-- A name has an extension of some list, whatever the case of its letters. A dot at the start
starts no extension. -/
def HasExtension (exts : List Text) (n : Text) : Prop :=
  ∃ stem ext, n = stem ++ '.' :: ext ∧ stem ≠ [] ∧ '.' ∉ ext ∧ ext.map Char.toLower ∈ exts

theorem isSourceName_iff :
    isSourceName n = true ↔ HasExtension ["bbcode".toList, "bb".toList] n := by
  have hsame (ext : Text) : (sourceExtensions.any fun e => ext.sameAscii e) = true ↔
      ext.map Char.toLower ∈ ["bbcode".toList, "bb".toList] := by
    simp [sourceExtensions, Text.sameAscii]
  constructor
  · intro h
    obtain ⟨stem, ext, hs⟩ := splitName?_of_isSourceName h
    rw [isSourceName, hs] at h
    obtain ⟨hstem, hn⟩ := splitName?_eq_some hs
    exact ⟨stem, ext, hn, hstem, not_mem_of_splitName? hs, (hsame ext).1 h⟩
  · rintro ⟨stem, ext, rfl, hstem, hext, hmem⟩
    rw [isSourceName, splitName?_append hstem hext]
    exact (hsame ext).2 hmem

/-- An output is not called like a source. -/
theorem isSourceName_replaceExtension (h : isSourceName n = true) :
    isSourceName (replaceExtension "html".toList n) = false := by
  obtain ⟨stem, ext, hs⟩ := splitName?_of_isSourceName h
  obtain ⟨hne, -⟩ := splitName?_eq_some hs
  rw [replaceExtension_stem _ hs, isSourceName, splitName?_append hne (by decide)]
  rfl

theorem IsName.replaceExtension (hn : IsName n) (h : isSourceName n = true) :
    IsName (replaceExtension "html".toList n) := by
  obtain ⟨stem, ext, hs⟩ := splitName?_of_isSourceName h
  obtain ⟨-, hstem⟩ := splitName?_eq_some hs
  have hslash : '/' ∉ stem := fun hm => hn.no_slash (by rw [hstem]; simp [hm])
  rw [replaceExtension_stem _ hs]
  refine ⟨by simp, by simp [hslash], ?_, ?_⟩
  · intro hd
    have := congrArg List.length hd
    simp [dot] at this
  · intro hd
    have := congrArg List.length hd
    simp [dots] at this

end Path

end BBCode
