import BBCode.Proofs.Disk.Run
import BBCode.Proofs.Text.Bytes

/-!
# BBCode.Proofs.Disk.Seen

When a path is seen to lead to a folder. Every step of it has to lead to one, and its spelling has to
be short enough: a folder that is there is not seen to be one by a path that is too long.

Main statements: `kind?_eq_folder_iff`, and `kind?_below_iff` for what lies below a folder.
-/

namespace BBCode

open FileSystem

namespace Path

variable {p : Path} {n : Text} {names : List Text}

theorem text_prefix_child (p : Path) (n : Text) : p.text <+: (p.child n).text := by
  unfold child
  split <;> simp

theorem text_prefix_below (p : Path) (names : List Text) : p.text <+: (p.below names).text := by
  induction names generalizing p with
  | nil => exact List.prefix_rfl
  | cons n names ih => exact (text_prefix_child p n).trans (ih (p.child n))

/-- What stands neither in a path nor in the names below it does not stand in the whole. -/
theorem not_mem_text_below {c : Char} {p : Path} {names : List Text} (hc : c ≠ '/')
    (hp : c ∉ p.text) (hnames : ∀ n ∈ names, c ∉ n) : c ∉ (p.below names).text := by
  induction names generalizing p with
  | nil => exact hp
  | cons n names ih =>
    obtain ⟨hn, hnames⟩ := List.forall_mem_cons.1 hnames
    refine ih ?_ hnames
    unfold child
    split <;> simp [hp, hn, hc]

end Path

theorem Text.byteLength_le_of_prefix {s t : Text} (h : s <+: t) : s.byteLength ≤ t.byteLength := by
  obtain ⟨r, rfl⟩ := h
  rw [byteLength_append]
  omega

namespace Disk

variable {d : Disk} {p : Path} {n : Text} {names : List Text}

/-- A disk with a folder to work in, where every entry is called by a name of its own. -/
structure Sound (d : Disk) : Prop where
  names : d.root.Sound
  works : d.Works

theorem kind?_eq_folder : d.kind? p = some .folder ↔ ∃ g, d.entry p = .ok (.folder g) := by
  unfold kind?
  cases h : d.entry p with
  | error e => simp
  | ok e => cases e <;> simp

/-- What leads anywhere is short and holds no NUL. -/
theorem spelled_of_locate {t : Target} (h : d.locate p = .ok t) :
    '\x00' ∉ p.text ∧ p.text.byteLength < pathLimit := by
  unfold locate at h
  split at h
  · cases h
  · rename_i hnul
    split at h
    · cases h
    · split at h
      · cases h
      · rename_i hlen
        exact ⟨by simpa using hnul, Nat.not_le.1 hlen⟩

theorem spelled_of_entry {e : Entry} (h : d.entry p = .ok e) :
    '\x00' ∉ p.text ∧ p.text.byteLength < pathLimit := by
  unfold entry at h
  split at h
  · cases h
  · rename_i t ht
    exact spelled_of_locate ht

theorem locate_of_opens (hne : p.text ≠ []) (hnul : '\x00' ∉ p.text)
    (hshort : p.text.byteLength < pathLimit)
    (ho : Opens d.root (d.start p) (Path.segments p.text)) : ∃ t, d.locate p = .ok t := by
  rw [start] at ho
  have hspelled : (p.text.contains '\x00') = false ∧ p.text.isEmpty = false := by
    simp [hnul, hne]
  rw [locate, hspelled.1, hspelled.2, if_neg Bool.false_ne_true, if_neg Bool.false_ne_true,
    if_neg (Nat.not_le.2 hshort)]
  dsimp only
  cases hs : (Path.segments p.text).getLast? with
  | none => exact ⟨_, rfl⟩
  | some s =>
    obtain ⟨ss, hss⟩ := List.getLast?_eq_some_iff.1 hs
    rw [hss, opens_append] at ho
    obtain ⟨hinit, hlast⟩ := ho
    rw [hss, List.dropLast_concat]
    dsimp only
    rw [descend_eq_ok.2 ⟨rfl, hinit⟩]
    dsimp only
    by_cases h1 : s = Path.dot
    · exact ⟨_, by rw [if_pos h1]⟩
    by_cases h2 : s = Path.dots
    · exact ⟨_, by rw [if_neg h1, if_pos h2]⟩
    rw [Opens, if_neg h1, if_neg h2] at hlast
    exact ⟨_, by rw [if_neg h1, if_neg h2, if_neg (Nat.not_lt.2 hlast.1)]⟩

/-- A path leads to a folder if its spelling admits it and every step does. -/
theorem kind?_eq_folder_iff (hd : d.Works) : d.kind? p = some .folder ↔
    p.text ≠ [] ∧ '\x00' ∉ p.text ∧ p.text.byteLength < pathLimit ∧
      Opens d.root (d.start p) (Path.segments p.text) := by
  rw [kind?_eq_folder]
  constructor
  · rintro ⟨g, hg⟩
    obtain ⟨hne, ho⟩ := opens_of_entry hg
    obtain ⟨hnul, hshort⟩ := spelled_of_entry hg
    exact ⟨hne, hnul, hshort, ho⟩
  · rintro ⟨hne, hnul, hshort, ho⟩
    obtain ⟨t, ht⟩ := locate_of_opens hne hnul hshort ho
    obtain ⟨g, hg⟩ := isFolder_walk (hd.start p) ho
    refine ⟨g, ?_⟩
    rw [← place, place_of_locate ht] at hg
    rw [entry, ht]
    dsimp only
    rw [hg]

/-- What a disk can hold as the name of an entry. -/
structure IsStored (n : Text) : Prop where
  short : n.byteLength ≤ nameLimit
  no_nul : '\x00' ∉ n

theorem start_below (hp : p.text ≠ []) : d.start (p.below names) = d.start p := by
  rw [start, start, Path.isAbsolute_below hp]

theorem place_below (hp : p.text ≠ []) (hnames : ∀ m ∈ names, Path.IsName m) :
    d.place (p.below names) = d.place p ++ names := by
  rw [place, start_below hp, Path.segments_below hnames, walk_append, walk_names hnames, ← place]

theorem place_child (hp : p.text ≠ []) (hn : Path.IsName n) :
    d.place (p.child n) = d.place p ++ [n] := by
  rw [← place_below hp (by simpa using hn)]
  rfl

theorem opens_of_isFolder {root : Folder} {here : List Text}
    (hnames : ∀ m ∈ names, Path.IsName m ∧ IsStored m) (h : root.IsFolder (here ++ names)) :
    Opens root here names := by
  induction names generalizing here with
  | nil => trivial
  | cons n names ih =>
    obtain ⟨⟨hn, hs⟩, hnames⟩ := List.forall_mem_cons.1 hnames
    have h' : root.IsFolder ((here ++ [n]) ++ names) := by simpa using h
    rw [Opens, if_neg hn.ne_dot, if_neg hn.ne_dots]
    exact ⟨hs.short, h'.of_append, ih hnames h'⟩

/-- A folder at some place below another is seen to be one if its path is short enough. -/
theorem kind?_below_iff (hd : d.Works) (hp : d.kind? p = some .folder)
    (hnames : ∀ m ∈ names, Path.IsName m ∧ IsStored m)
    (hf : d.root.IsFolder (d.place p ++ names)) :
    d.kind? (p.below names) = some .folder ↔ (p.below names).text.byteLength < pathLimit := by
  obtain ⟨hne, hnul, -, ho⟩ := (kind?_eq_folder_iff hd).1 hp
  rw [kind?_eq_folder_iff hd]
  refine ⟨fun h => h.2.2.1, fun hshort => ⟨?_, ?_, hshort, ?_⟩⟩
  · intro hnil
    have := Path.text_prefix_below p names
    rw [hnil, List.prefix_nil] at this
    exact hne this
  · exact Path.not_mem_text_below (by decide) hnul fun n hn => (hnames n hn).2.no_nul
  · rw [start_below hne, Path.segments_below fun n hn => (hnames n hn).1, opens_append]
    exact ⟨ho, opens_of_isFolder hnames hf⟩

/-- What is seen to be a folder lies in folders that are. -/
theorem kind?_of_below (hd : d.Works) (hp : p.text ≠ []) (hnames : ∀ m ∈ names, Path.IsName m)
    (h : d.kind? (p.below names) = some .folder) : d.kind? p = some .folder := by
  obtain ⟨-, hnul, hshort, ho⟩ := (kind?_eq_folder_iff hd).1 h
  have hstarts := Path.text_prefix_below p names
  rw [start_below hp, Path.segments_below hnames, opens_append] at ho
  exact (kind?_eq_folder_iff hd).2 ⟨hp, fun hc => hnul (hstarts.subset hc),
    Nat.lt_of_le_of_lt (Text.byteLength_le_of_prefix hstarts) hshort, ho.1⟩

end Disk

end BBCode
