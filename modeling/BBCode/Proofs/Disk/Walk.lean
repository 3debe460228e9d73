import BBCode.Proofs.Disk.Tree

/-!
# BBCode.Proofs.Disk.Walk

Where a path leads on a disk, and what the file operations do there. The place of a path depends
on its spelling and on the working folder alone; whether one gets there depends on the folders on
the way, which no operation removes.

Main statements: `descend_eq_ok`, `readFile_eq_ok`, and `writeFile_eq_ok`: a successful write puts
the content at the place of its path and leaves every other content.
-/

namespace BBCode

namespace Disk

variable {root root' : Folder} {here loc a b : List Text} {s : Text} {d d' d'' : Disk} {p : Path}
  {c : ByteArray}

/-- Where some segments lead from a folder, if they lead anywhere. -/
def walk (here : List Text) : List Text → List Text
  | [] => here
  | s :: ss =>
    if s = Path.dot then walk here ss
    else if s = Path.dots then walk here.dropLast ss
    else walk (here ++ [s]) ss

/-- Every segment leads from a folder to a folder. -/
def Opens (root : Folder) (here : List Text) : List Text → Prop
  | [] => True
  | s :: ss =>
    if s = Path.dot then Opens root here ss
    else if s = Path.dots then Opens root here.dropLast ss
    else s.byteLength ≤ nameLimit ∧ root.IsFolder (here ++ [s]) ∧ Opens root (here ++ [s]) ss

theorem walk_append : walk here (a ++ b) = walk (walk here a) b := by
  fun_induction walk here a with
  | case1 here => rfl
  | case2 here ss ih => rw [List.cons_append, walk, if_pos rfl, ih]
  | case3 here ss h ih => rw [List.cons_append, walk, if_neg h, if_pos rfl, ih]
  | case4 here s ss h1 h2 ih => rw [List.cons_append, walk, if_neg h1, if_neg h2, ih]

theorem walk_names (hb : ∀ n ∈ b, Path.IsName n) : walk here b = here ++ b := by
  induction b generalizing here with
  | nil => rw [walk, List.append_nil]
  | cons n b ih =>
    have hn := hb n (by simp)
    rw [walk, if_neg hn.ne_dot, if_neg hn.ne_dots, ih fun m hm => hb m (by simp [hm]),
      List.append_assoc]
    rfl

theorem opens_append :
    Opens root here (a ++ b) ↔ Opens root here a ∧ Opens root (walk here a) b := by
  fun_induction walk here a with
  | case1 here => simp [Opens]
  | case2 here ss ih => simpa [Opens] using ih
  | case3 here ss h ih => simpa [Opens, h] using ih
  | case4 here s ss h1 h2 ih => simp [Opens, h1, h2, ih, and_assoc]

theorem descend_eq_ok :
    descend root here a = .ok loc ↔ loc = walk here a ∧ Opens root here a := by
  fun_induction descend root here a with
  | case1 here => simp [walk, Opens, eq_comm]
  | case2 here ss ih => simpa [walk, Opens] using ih
  | case3 here ss h ih => simpa [walk, Opens, h] using ih
  | case4 here s ss h1 h2 h3 => simp [Opens, h1, h2, Nat.not_le.2 h3]
  | case5 here s ss h1 h2 h3 g hg ih =>
    have : root.IsFolder (here ++ [s]) := ⟨g, hg⟩
    simp [walk, Opens, h1, h2, Nat.not_lt.1 h3, this, ih]
  | case6 here s ss h1 h2 h3 c hc =>
    have : ¬ root.IsFolder (here ++ [s]) := by
      rintro ⟨g, hg⟩
      simp [hg] at hc
    simp [Opens, h1, h2, this]
  | case7 here s ss h1 h2 h3 hn =>
    have : ¬ root.IsFolder (here ++ [s]) := by
      rintro ⟨g, hg⟩
      simp [hg] at hn
    simp [Opens, h1, h2, this]

theorem isFolder_walk (hh : root.IsFolder here) (h : Opens root here a) :
    root.IsFolder (walk here a) := by
  fun_induction walk here a with
  | case1 here => exact hh
  | case2 here ss ih => exact ih hh (by simpa [Opens] using h)
  | case3 here ss hs ih => exact ih hh.dropLast (by simpa [Opens, hs] using h)
  | case4 here s ss h1 h2 ih =>
    simp only [Opens, if_neg h1, if_neg h2] at h
    exact ih h.2.1 h.2.2

/-- What is open stays open where folders stay folders. -/
theorem Opens.mono (hr : ∀ l, root.IsFolder l → root'.IsFolder l) (h : Opens root here a) :
    Opens root' here a := by
  fun_induction Opens root here a with
  | case1 here => trivial
  | case2 here ss ih => simpa [Opens] using ih h
  | case3 here ss hs ih => simpa [Opens, hs] using ih h
  | case4 here s ss h1 h2 ih => simpa [Opens, h1, h2] using ⟨h.1, hr _ h.2.1, ih h.2.2⟩

/-- Names lead on through a tree where they do in another, if they lead to a folder there. -/
theorem Opens.of_isFolder (hb : ∀ n ∈ b, Path.IsName n) (h : Opens root' here b)
    (hr : root.IsFolder (here ++ b)) : Opens root here b := by
  induction b generalizing here with
  | nil => trivial
  | cons n b ih =>
    have hn := hb n (by simp)
    have hr' : root.IsFolder ((here ++ [n]) ++ b) := by simpa using hr
    simp only [Opens, if_neg hn.ne_dot, if_neg hn.ne_dots] at h ⊢
    exact ⟨h.1, hr'.of_append, ih (fun m hm => hb m (by simp [hm])) h.2.2 hr'⟩

/-- Where following a path starts. -/
def start (d : Disk) (p : Path) : List Text := if p.isAbsolute then [] else d.working

/-- Where a path leads, if it leads anywhere. -/
def place (d : Disk) (p : Path) : List Text := walk (d.start p) (Path.segments p.text)

theorem place_resolve (d : Disk) (root : Path) (t : Text) :
    d.place (root.resolve t) = walk (d.place root) (Path.segments t) := by
  rw [place, start, Path.isAbsolute_resolve, Path.segments_resolve, walk_append, ← start, ← place]

/-- A path leads to a name in a folder, whether or not anything is called by it. -/
def Leads (d : Disk) (p : Path) : Prop := ∃ here n, d.locate p = .ok ⟨here, some n, false⟩

/-- A path that ends in a name, as it has to be spelled to lead anywhere. -/
structure Ends (p : Path) (ss : List Text) (n : Text) : Prop where
  no_nul : '\x00' ∉ p.text
  short : p.text.byteLength < FileSystem.pathLimit
  segments : Path.segments p.text = ss ++ [n]
  ne_dot : n ≠ Path.dot
  ne_dots : n ≠ Path.dots
  name_short : n.byteLength ≤ nameLimit

/-- A path leads to a folder by its spelling, or to a name in a folder. -/
theorem locate_eq_ok {t : Target} (h : d.locate p = .ok t) : p.text ≠ [] ∧
    ((t = ⟨d.place p, none, true⟩ ∧ Opens d.root (d.start p) (Path.segments p.text)) ∨
      ∃ ss n, Ends p ss n ∧ Opens d.root (d.start p) ss ∧
        t = ⟨walk (d.start p) ss, some n, p.text.getLast? = some '/'⟩) := by
  unfold locate at h
  split at h
  · cases h
  rename_i hnul
  split at h
  · cases h
  rename_i hne
  split at h
  · cases h
  rename_i hlen
  refine ⟨by simpa using hne, ?_⟩
  dsimp only at h
  rw [← start] at h
  split at h
  · rename_i hs
    cases h
    rw [List.getLast?_eq_none_iff] at hs
    exact .inl ⟨by rw [place, hs, walk], by rw [hs]; trivial⟩
  rename_i s hs
  obtain ⟨ss, hss⟩ := List.getLast?_eq_some_iff.1 hs
  rw [hss, List.dropLast_concat] at h
  split at h
  · cases h
  rename_i here hd
  obtain ⟨rfl, ho⟩ := descend_eq_ok.1 hd
  rw [place, hss, walk_append, opens_append]
  by_cases h1 : s = Path.dot
  · rw [if_pos h1] at h
    cases h
    subst h1
    exact .inl ⟨rfl, ho, trivial⟩
  rw [if_neg h1] at h
  by_cases h2 : s = Path.dots
  · rw [if_pos h2] at h
    cases h
    subst h2
    exact .inl ⟨rfl, ho, trivial⟩
  rw [if_neg h2] at h
  split at h
  · cases h
  rename_i h3
  cases h
  have he : Ends p ss s :=
    ⟨by simpa using hnul, Nat.not_le.1 hlen, hss, h1, h2, Nat.not_lt.1 h3⟩
  exact .inr ⟨ss, s, he, ho, rfl⟩

theorem locate_of_ends {ss : List Text} {n : Text} (he : Ends p ss n)
    (ho : Opens d.root (d.start p) ss) :
    d.locate p = .ok ⟨walk (d.start p) ss, some n, p.text.getLast? = some '/'⟩ := by
  have hne : p.text ≠ [] := by
    intro h
    have := he.segments
    rw [h] at this
    simp [Path.segments, Text.splitAt] at this
  have hd : descend d.root (d.start p) ss = .ok (walk (d.start p) ss) := descend_eq_ok.2 ⟨rfl, ho⟩
  rw [start] at hd
  simp [locate, he.no_nul, hne, Nat.not_le.2 he.short, he.segments, hd, he.ne_dot, he.ne_dots,
    Nat.not_lt.2 he.name_short, start]

theorem place_of_ends {ss : List Text} {n : Text} (h : Ends p ss n) :
    d.place p = walk (d.start p) ss ++ [n] := by
  rw [place, h.segments, walk_append, walk, if_neg h.ne_dot, if_neg h.ne_dots, walk]

theorem leads_iff : d.Leads p ↔
    p.text.getLast? ≠ some '/' ∧ ∃ ss n, Ends p ss n ∧ Opens d.root (d.start p) ss := by
  constructor
  · rintro ⟨here, n, h⟩
    obtain ⟨-, ⟨ht, -⟩ | ⟨ss, m, he, ho, ht⟩⟩ := locate_eq_ok h
    · cases ht
    · simp only [Target.mk.injEq, Bool.false_eq, decide_eq_false_iff_not] at ht
      exact ⟨ht.2.2, ss, m, he, ho⟩
  · rintro ⟨hs, ss, n, he, ho⟩
    exact ⟨_, n, by rw [locate_of_ends he ho, decide_eq_false hs]⟩

theorem place_of_locate {t : Target} (h : d.locate p = .ok t) :
    d.place p = t.folder ++ t.name.toList := by
  obtain ⟨-, ⟨rfl, -⟩ | ⟨ss, n, he, -, rfl⟩⟩ := locate_eq_ok h
  · simp
  · exact place_of_ends he

/-- What a path leads to is the entry at its place. -/
theorem entryAt?_of_entry {e : Entry} (h : d.entry p = .ok e) :
    d.root.entryAt? (d.place p) = some e := by
  unfold entry at h
  split at h
  · cases h
  · rename_i t ht
    rw [place_of_locate ht]
    split at h
    · cases h
    · rename_i g hg
      cases h
      exact hg
    · rename_i c hc
      split at h <;> cases h
      exact hc

/-- The folder that a path leads to is open to further names. -/
theorem opens_of_entry {g : Folder} (h : d.entry p = .ok (.folder g)) :
    p.text ≠ [] ∧ Opens d.root (d.start p) (Path.segments p.text) := by
  have hg := entryAt?_of_entry h
  unfold entry at h
  split at h
  · cases h
  · rename_i t ht
    obtain ⟨hne, ⟨-, ho⟩ | ⟨ss, n, he, ho, -⟩⟩ := locate_eq_ok ht
    · exact ⟨hne, ho⟩
    · refine ⟨hne, ?_⟩
      rw [place_of_ends he] at hg
      rw [he.segments, opens_append]
      simp only [Opens, if_neg he.ne_dot, if_neg he.ne_dots]
      exact ⟨ho, he.name_short, ⟨g, hg⟩, trivial⟩

theorem readFile_eq_ok :
    d.readFile p = .ok c ↔ d.Leads p ∧ d.root.contentAt? (d.place p) = some c := by
  rw [Folder.contentAt?_eq_some]
  constructor
  · intro h
    unfold readFile at h
    split at h <;> cases h
    rename_i he
    refine ⟨?_, entryAt?_of_entry he⟩
    have hc := entryAt?_of_entry he
    unfold entry at he
    split at he
    · cases he
    · rename_i t ht
      rw [← place_of_locate ht, hc] at he
      simp only at he
      split at he
      · cases he
      · rename_i hs
        obtain ⟨-, ⟨rfl, -⟩ | ⟨ss, n, hends, ho, rfl⟩⟩ := locate_eq_ok ht
        · exact absurd rfl hs
        · exact leads_iff.2 ⟨by simpa using hs, ss, n, hends, ho⟩
  · rintro ⟨⟨here, n, h⟩, hc⟩
    replace hc : d.root.entryAt? (here ++ [n]) = some (.file c) := place_of_locate h ▸ hc
    simp [readFile, entry, h, hc]

/-- How a disk may change while documents are written: what is a folder stays one. -/
structure Grows (d d' : Disk) : Prop where
  working : d'.working = d.working
  folders : ∀ l, d.root.IsFolder l → d'.root.IsFolder l

/-- No content differs. -/
def SameFiles (d d' : Disk) : Prop := ∀ l, d'.root.contentAt? l = d.root.contentAt? l

namespace Grows

theorem refl (d : Disk) : Grows d d := ⟨rfl, fun _ h => h⟩

theorem trans (h : Grows d d') (h' : Grows d' d'') : Grows d d'' :=
  ⟨h'.working.trans h.working, fun l hl => h'.folders l (h.folders l hl)⟩

theorem start (h : Grows d d') (p : Path) : d'.start p = d.start p := by
  rw [Disk.start, Disk.start, h.working]

theorem place (h : Grows d d') (p : Path) : d'.place p = d.place p := by
  rw [Disk.place, Disk.place, h.start]

theorem leads (h : Grows d d') (hp : d.Leads p) : d'.Leads p := by
  obtain ⟨hs, ss, n, he, ho⟩ := leads_iff.1 hp
  exact leads_iff.2 ⟨hs, ss, n, he, by rw [h.start]; exact ho.mono h.folders⟩

end Grows

/-- The working folder is there. -/
def Works (d : Disk) : Prop := d.root.IsFolder d.working

theorem Works.start (h : d.Works) (p : Path) : d.root.IsFolder (d.start p) := by
  unfold Disk.start
  split
  · exact Folder.isFolder_nil _
  · exact h

theorem Grows.works (h : Grows d d') (hd : d.Works) : d'.Works := by
  rw [Works, h.working]
  exact h.folders _ hd

/-- A path that leads to a name on one disk does on another with the same working folder, where
the folders it names are there. -/
theorem Leads.of_isFolder {n : Text} (h : d'.Leads p) (hw : d'.start p = d.start p)
    (hp : Path.segments p.text = a ++ b ++ [n]) (ha : Opens d.root (d.start p) a)
    (hb : ∀ m ∈ b, Path.IsName m) (hf : d.root.IsFolder (walk (d.start p) a ++ b)) : d.Leads p := by
  obtain ⟨hs, ss, m, he, ho⟩ := leads_iff.1 h
  obtain ⟨rfl, -⟩ := List.append_inj' (hp.symm.trans he.segments) rfl
  rw [hw] at ho
  have hob : Opens d.root (walk (d.start p) a) b := (opens_append.1 ho).2.of_isFolder hb hf
  exact leads_iff.2 ⟨hs, a ++ b, m, he, opens_append.2 ⟨ha, hob⟩⟩

theorem isFolder_of_locate {t : Target} (hd : d.Works) (h : d.locate p = .ok t) :
    d.root.IsFolder t.folder := by
  obtain ⟨-, ⟨rfl, ho⟩ | ⟨ss, n, -, ho, rfl⟩⟩ := locate_eq_ok h
  · exact isFolder_walk (hd.start p) ho
  · exact isFolder_walk (hd.start p) ho

/-- A successful write puts the content at the place of its path, where no folder was. -/
theorem writeFile_eq_ok (hd : d.Works) (h : d.writeFile p c = .ok d') :
    d.Leads p ∧ Grows d d' ∧
      ∀ l, d'.root.contentAt? l = if l = d.place p then some c else d.root.contentAt? l := by
  unfold writeFile at h
  split at h
  · cases h
  · cases h
  · rename_i here n slash ht
    split at h
    · cases h
    · rename_i hs
      rw [Bool.not_eq_true] at hs
      subst hs
      split at h
      · cases h
      · rename_i hv
        cases h
        have hfree : d.root.Free here n := ⟨isFolder_of_locate hd ht, fun ⟨g, hg⟩ => hv g hg⟩
        refine ⟨⟨here, n, ht⟩, ⟨rfl, fun l hl => Folder.isFolder_putAt hfree hl⟩, ?_⟩
        intro l
        rw [place_of_locate ht]
        exact Folder.contentAt?_putAt (fun g hg => by cases hg) hfree

/-- Whether a write is refused is a matter of the path and not of the content. -/
theorem writeFile_eq_error {cause : OsError} (h : d.writeFile p c = .error cause)
    (c' : ByteArray) : d.writeFile p c' = .error cause := by
  unfold writeFile at h ⊢
  split at h
  · exact h
  · exact h
  · rename_i here n slash _
    cases slash with
    | true => exact h
    | false =>
      rw [if_neg Bool.false_ne_true] at h ⊢
      split at h
      · exact h
      · cases h

theorem makeFolder_eq_ok (hd : d.Works) (h : d.makeFolder p = .ok d') :
    Grows d d' ∧ SameFiles d d' := by
  unfold makeFolder at h
  split at h
  · cases h
  · cases h
  · rename_i here n slash ht
    split at h
    · cases h
    · rename_i hv
      cases h
      have hfree : d.root.Free here n :=
        ⟨isFolder_of_locate hd ht, fun ⟨g, hg⟩ => by rw [hv] at hg; cases hg⟩
      refine ⟨⟨rfl, fun l hl => Folder.isFolder_putAt hfree hl⟩, fun l => ?_⟩
      rw [Folder.contentAt?_putAt (fun g hg => by cases hg; rfl) hfree]
      split
      · rename_i hl
        subst hl
        simp [Folder.contentAt?, hv, Entry.content?]
      · rfl

end Disk
end BBCode
