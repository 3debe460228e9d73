import BBCode.Proofs.Disk.Seen
import BBCode.Proofs.Path.Order

/-!
# BBCode.Proofs.Disk.Scan

What a scan for sources finds. It looks into every entry that is seen to be a folder, and takes any
other that has the name of a source; so a folder whose path is too long for that is not looked into.
What is found has paths with different components, so the order of the result is that of the paths,
however the folders list their entries.

* `run_scan`: a scan as a function of the disk, which it does not change.
* `met_of_mem_found` and `mem_found_of_met`: what is found, by the names that lead there.
* `scan_sources`: the result of a scan; `scan_incomplete`: it does not always hold every source.
-/

namespace BBCode

open FileSystem

namespace Path

variable {p : Path} {n : Text}

theorem components_child (hp : p.text ≠ []) (h : IsName n) :
    (p.child n).components = p.components ++ [.name n] := by
  have hn : ∀ m ∈ [n], IsName m := by simpa using h
  exact components_below hp hn

theorem isSource_child (hp : p.text ≠ []) (h : IsName n) :
    (p.child n).isSource = isSourceName n := by
  simp [isSource, fileName?, components_child hp h]

theorem byteLength_child_lt (p : Path) (hn : n ≠ []) :
    p.text.byteLength < (p.child n).text.byteLength := by
  have hpos := Text.byteLength_pos hn
  unfold child
  split <;> simp only [Text.byteLength_append, Text.byteLength_cons] <;> omega

end Path

namespace Disk

variable {d : Disk} {p q root : Path} {n : Text} {pre names : List Text} {g : Folder} {depth : Nat}

/-- The sources below a folder, by as many steps down as are given. -/
def found (d : Disk) : Nat → Path → List Path
  | 0, _ => []
  | depth + 1, p =>
    match d.readFolder p with
    | .error _ => []
    | .ok names => (names.map p.child).flatMap fun q =>
        if d.kind? q = some .folder then d.found depth q else [q].filter Path.isSource

theorem run_isFolder? (p : Path) (d : Disk) : (isFolder? (m := StateM Disk) p).run d =
    (decide (d.kind? p = some .folder), d) := rfl

theorem run_sourcesAt {below : Path → StateM Disk (Except OsError (List Path))}
    {f : Path → List Path} (h : d.kind? q = some .folder → (below q).run d = (.ok (f q), d)) :
    (Source.sourcesAt below q).run d =
      (.ok (if d.kind? q = some .folder then f q else [q].filter Path.isSource), d) := by
  rw [Source.sourcesAt, run_bind, run_isFolder?]
  by_cases hq : d.kind? q = some .folder
  · rw [decide_eq_true hq, if_pos hq]
    exact h hq
  · rw [decide_eq_false hq, if_neg hq]
    rfl

theorem run_sourcesAmong {below : Path → StateM Disk (Except OsError (List Path))}
    {f : Path → List Path} {ps : List Path}
    (h : ∀ q, d.kind? q = some .folder → (below q).run d = (.ok (f q), d)) :
    (Source.sourcesAmong below ps).run d = (.ok (ps.flatMap fun q =>
      if d.kind? q = some .folder then f q else [q].filter Path.isSource), d) := by
  induction ps with
  | nil => rfl
  | cons q ps ih =>
    rw [Source.sourcesAmong, run_bind, run_sourcesAt (h q)]
    dsimp only
    rw [run_bind, ih, List.flatMap_cons]
    rfl

theorem run_sourcesBelow (depth : Nat) (hp : d.kind? p = some .folder) :
    (Source.sourcesBelow (m := StateM Disk) depth p).run d = (.ok (d.found depth p), d) := by
  induction depth generalizing p with
  | zero => rfl
  | succ depth ih =>
    obtain ⟨g, hg⟩ := kind?_eq_folder.1 hp
    have hread : (FileSystem.readFolder (m := StateM Disk) p).run d = (.ok g.names, d) := by
      show (d.readFolder p, d) = _
      rw [readFolder, hg]
    rw [Source.sourcesBelow_succ, run_bind, hread, found, readFolder, hg]
    exact run_sourcesAmong fun q hq => ih hq

theorem run_validateFolder (p : Path) (d : Disk) :
    (Source.validateFolder (m := StateM Disk) p).run d =
      (if d.kind? p = some .folder then .ok () else .error (.invalidFolder p), d) := by
  rw [Source.validateFolder, run_bind, run_isFolder?]
  by_cases hp : d.kind? p = some .folder
  · rw [decide_eq_true hp, if_pos hp]
    rfl
  · rw [decide_eq_false hp, if_neg hp]
    rfl

/-- Looking for sources changes nothing, and fails where there is no folder alone. -/
theorem run_scan (root : Path) (d : Disk) : (Source.scan (m := StateM Disk) root).run d =
    (if d.kind? root = some .folder then
        .ok ((d.found pathLimit root).mergeSort fun p q => !q.before p)
      else .error (.invalidFolder root), d) := by
  rw [Source.scan, run_bind, run_validateFolder]
  by_cases hr : d.kind? root = some .folder
  · rw [if_pos hr, if_pos hr]
    dsimp only
    rw [run_bind, run_sourcesBelow _ hr]
    rfl
  · rw [if_neg hr, if_neg hr]
    rfl

theorem run_scan_sorted {files : List Path} (hroot : d.kind? root = some .folder)
    (hfound : d.found pathLimit root = files)
    (hsorted : files.Pairwise fun p q => (!q.before p) = true) :
    (Source.scan (m := StateM Disk) root).run d = (.ok files, d) := by
  rw [run_scan, if_pos hroot, hfound, List.mergeSort_of_pairwise hsorted]

theorem found_succ (hp : d.entry p = .ok (.folder g)) : d.found (depth + 1) p =
    g.names.flatMap fun n => if d.kind? (p.child n) = some .folder then d.found depth (p.child n)
      else [p.child n].filter Path.isSource := by
  rw [found, readFolder, hp]
  simp only [List.flatMap_map]

/-- A source as it is met below a folder: in folders that are seen to be some, and itself not seen
to be one. -/
structure Met (d : Disk) (p : Path) (pre : List Text) (n : Text) : Prop where
  source : Path.isSourceName n = true
  folder : d.kind? (p.below pre) = some .folder
  there : ∃ e, d.root.entryAt? (d.place p ++ (pre ++ [n])) = some e
  last : d.kind? (p.below (pre ++ [n])) ≠ some .folder

theorem Met.isName (hs : d.root.Sound) (h : d.Met p pre n) : ∀ m ∈ pre ++ [n], Path.IsName m := by
  obtain ⟨e, he⟩ := h.there
  intro m hm
  exact hs.allNames.of_entryAt? he m (List.mem_append_right _ hm)

theorem met_cons {m : Text} (hp : p.text ≠ []) (hm : Path.IsName m) :
    d.Met p (m :: pre) n ↔ d.Met (p.child m) pre n := by
  have hplace : d.place p ++ (m :: pre ++ [n]) = d.place (p.child m) ++ (pre ++ [n]) := by
    rw [place_child hp hm, List.append_assoc]
    rfl
  constructor
  · rintro ⟨h1, h2, h3, h4⟩
    exact ⟨h1, h2, hplace ▸ h3, h4⟩
  · rintro ⟨h1, h2, h3, h4⟩
    exact ⟨h1, h2, hplace ▸ h3, h4⟩

theorem met_nil (hp : d.kind? p = some .folder) (hne : p.text ≠ []) (hn : Path.IsName n) :
    d.Met p [] n ↔ d.kind? (p.child n) ≠ some .folder ∧ (p.child n).isSource = true ∧
      ∃ e, d.root.entryAt? (d.place p ++ [n]) = some e := by
  rw [Path.isSource_child hne hn]
  constructor
  · rintro ⟨h1, -, h3, h4⟩
    exact ⟨h4, h1, h3⟩
  · rintro ⟨h1, h2, h3⟩
    exact ⟨h2, hp, h3, h1⟩

theorem mem_names_iff (hp : d.entry p = .ok (.folder g)) :
    n ∈ g.names ↔ ∃ e, d.root.entryAt? (d.place p ++ [n]) = some e := by
  rw [Folder.mem_names, Folder.entryAt?_append (entryAt?_of_entry hp), Folder.entryAt?_cons]
  cases g.find? n with
  | none => simp
  | some e => simp [Entry.at?_nil]

/-- What is found was met. -/
theorem met_of_mem_found (hs : d.root.Sound) (hp : d.kind? p = some .folder)
    (h : q ∈ d.found depth p) : ∃ pre n, q = p.below (pre ++ [n]) ∧ d.Met p pre n := by
  induction depth generalizing p with
  | zero => cases h
  | succ depth ih =>
    obtain ⟨g, hg⟩ := kind?_eq_folder.1 hp
    obtain ⟨hne, -⟩ := opens_of_entry hg
    rw [found_succ hg] at h
    obtain ⟨m, hm, hq⟩ := List.mem_flatMap.1 h
    obtain ⟨e, he⟩ := (mem_names_iff hg).1 hm
    have hname : Path.IsName m := hs.allNames.of_entryAt? he m (by simp)
    split at hq
    · rename_i hk
      obtain ⟨pre, n, rfl, hmet⟩ := ih hk hq
      exact ⟨m :: pre, n, rfl, (met_cons hne hname).2 hmet⟩
    · rename_i hk
      obtain ⟨hq, hsource⟩ := List.mem_filter.1 hq
      obtain rfl := List.mem_singleton.1 hq
      exact ⟨[], m, rfl, (met_nil hp hne hname).2 ⟨hk, hsource, e, he⟩⟩

/-- What can be met is found, if there are as many steps as a path has bytes. -/
theorem mem_found_of_met (hd : d.Works) (hs : d.root.Sound) (hp : d.kind? p = some .folder)
    (hdepth : pathLimit ≤ depth + p.text.byteLength) (h : d.Met p pre n) :
    p.below (pre ++ [n]) ∈ d.found depth p := by
  induction depth generalizing p pre with
  | zero =>
    obtain ⟨-, -, hshort, -⟩ := (kind?_eq_folder_iff hd).1 hp
    omega
  | succ depth ih =>
    obtain ⟨g, hg⟩ := kind?_eq_folder.1 hp
    obtain ⟨hne, -⟩ := opens_of_entry hg
    have hnames := h.isName hs
    obtain ⟨e, he⟩ := h.there
    rw [found_succ hg]
    cases pre with
    | nil =>
      have hn : Path.IsName n := hnames n (by simp)
      obtain ⟨hk, hsource, -⟩ := (met_nil hp hne hn).1 h
      refine List.mem_flatMap.2 ⟨n, (mem_names_iff hg).2 ⟨e, he⟩, ?_⟩
      rw [if_neg hk]
      exact List.mem_filter.2 ⟨List.mem_singleton.2 rfl, hsource⟩
    | cons m pre =>
      have hm : Path.IsName m := hnames m (by simp)
      have hchild : (p.child m).text ≠ [] := Path.text_child_ne_nil hne
      have hk : d.kind? (p.child m) = some .folder :=
        kind?_of_below hd hchild (fun k hk => hnames k (by simp [hk])) h.folder
      have hthere : d.root.IsFolder (d.place p ++ [m]) := by
        obtain ⟨k, hkind⟩ := kind?_eq_folder.1 hk
        exact ⟨k, place_child hne hm ▸ entryAt?_of_entry hkind⟩
      have hlonger := Path.byteLength_child_lt p hm.ne_nil
      refine List.mem_flatMap.2 ⟨m, (mem_names_iff hg).2 ?_, ?_⟩
      · obtain ⟨k, hk⟩ := hthere
        exact ⟨_, hk⟩
      · rw [if_pos hk]
        exact ih hk (by omega) ((met_cons hne hm).1 h)

/-- What is found in different places has different components. -/
theorem pairwise_found (hs : d.root.Sound) (hp : d.kind? p = some .folder) :
    (d.found depth p).Pairwise fun a b => a.components ≠ b.components := by
  induction depth generalizing p with
  | zero => exact List.Pairwise.nil
  | succ depth ih =>
    obtain ⟨g, hg⟩ := kind?_eq_folder.1 hp
    obtain ⟨hne, -⟩ := opens_of_entry hg
    have hsound : g.Sound := hs.of_entryAt? (entryAt?_of_entry hg)
    -- What is found at an entry has the name of the entry behind the components of the folder.
    have hat {m : Text} (hm : m ∈ g.names) {q : Path} (hq : q ∈ if d.kind? (p.child m) = some .folder
        then d.found depth (p.child m) else [p.child m].filter Path.isSource) :
        ∃ rest, q.components = p.components ++ .name m :: rest := by
      obtain ⟨e, he⟩ := (mem_names_iff hg).1 hm
      have hname : Path.IsName m := hs.allNames.of_entryAt? he m (by simp)
      split at hq
      · rename_i hk
        obtain ⟨pre, n, rfl, hmet⟩ := met_of_mem_found hs hk hq
        have hnames := ((met_cons hne hname).2 hmet).isName hs
        exact ⟨_, Path.components_below hne hnames⟩
      · obtain rfl := List.mem_singleton.1 (List.mem_filter.1 hq).1
        exact ⟨[], Path.components_child hne hname⟩
    rw [found_succ hg, List.pairwise_flatMap]
    refine ⟨fun m _ => ?_, hsound.nodup_names.imp_of_mem fun {m k} hm hk hmk q hq r hr heq => ?_⟩
    · split
      · rename_i hk
        exact ih hk
      · exact (List.pairwise_singleton _ _).filter _
    · obtain ⟨rest, hq⟩ := hat hm hq
      obtain ⟨rest', hr⟩ := hat hk hr
      rw [hq, hr, List.append_cancel_left_eq, List.cons.injEq] at heq
      exact hmk (Component.name.inj heq.1)

/-- The same stands at every place of two disks, in whatever order their folders hold it. -/
structure Agrees (d d' : Disk) : Prop where
  working : d'.working = d.working
  folders : ∀ l, d'.root.IsFolder l ↔ d.root.IsFolder l
  files : SameFiles d d'

theorem Agrees.grows {d' : Disk} (h : Agrees d d') : Grows d d' :=
  ⟨h.working, fun l => (h.folders l).2⟩

theorem Agrees.kind?_eq_folder {d' : Disk} (hd : d.Works) (h : Agrees d d') :
    d'.kind? p = some .folder ↔ d.kind? p = some .folder := by
  have hopens {here ss : List Text} : Opens d'.root here ss ↔ Opens d.root here ss :=
    ⟨Opens.mono fun l => (h.folders l).1, Opens.mono fun l => (h.folders l).2⟩
  rw [kind?_eq_folder_iff hd, kind?_eq_folder_iff (h.grows.works hd), h.grows.start, hopens]

/-- What stands at a place is a file or a folder. -/
theorem exists_entryAt? {f : Folder} {loc : List Text} :
    (∃ e, f.entryAt? loc = some e) ↔ (∃ c, f.contentAt? loc = some c) ∨ f.IsFolder loc := by
  constructor
  · rintro ⟨e, he⟩
    cases e with
    | file c => exact .inl ⟨c, Folder.contentAt?_eq_some.2 he⟩
    | folder g => exact .inr ⟨g, he⟩
  · rintro (⟨c, hc⟩ | ⟨g, hg⟩)
    · exact ⟨_, Folder.contentAt?_eq_some.1 hc⟩
    · exact ⟨_, hg⟩

/-- What is seen to be a folder is one. -/
theorem isFolder_of_kind? (hne : root.text ≠ []) (hnames : ∀ m ∈ names, Path.IsName m)
    (h : d.kind? (root.below names) = some .folder) : d.root.IsFolder (d.place root ++ names) := by
  obtain ⟨g, hg⟩ := kind?_eq_folder.1 h
  exact ⟨g, place_below hne hnames ▸ entryAt?_of_entry hg⟩

/-- A source is met below a folder if its own folder has a path short enough to be looked into, and
if it is a file, or a folder whose path is too long to be seen to be one. -/
theorem met_iff (hd : d.Sound) (hstored : d.root.AllNames IsStored)
    (hroot : d.kind? root = some .folder) :
    d.Met root pre n ↔ Path.isSourceName n = true ∧ d.root.IsFolder (d.place root ++ pre) ∧
      (root.below pre).text.byteLength < pathLimit ∧
      ((∃ c, d.root.contentAt? (d.place root ++ (pre ++ [n])) = some c) ∨
        d.root.IsFolder (d.place root ++ (pre ++ [n])) ∧
          pathLimit ≤ (root.below (pre ++ [n])).text.byteLength) := by
  have hne := ((kind?_eq_folder_iff hd.works).1 hroot).1
  have hname {loc : List Text} {e : Entry} (h : d.root.entryAt? (d.place root ++ loc) = some e) :
      ∀ m ∈ loc, Path.IsName m ∧ IsStored m := fun m hm =>
    ⟨hd.names.allNames.of_entryAt? h m (List.mem_append_right _ hm),
      hstored.of_entryAt? h m (List.mem_append_right _ hm)⟩
  have hseen {loc : List Text} (h : d.root.IsFolder (d.place root ++ loc)) :=
    kind?_below_iff hd.works hroot (hname h.choose_spec) h
  constructor
  · rintro ⟨hsource, hfolder, ⟨e, he⟩, hlast⟩
    have hinside : d.root.IsFolder (d.place root ++ pre) :=
      isFolder_of_kind? hne (fun m hm => (hname he m (List.mem_append_left _ hm)).1) hfolder
    refine ⟨hsource, hinside, (hseen hinside).1 hfolder, (exists_entryAt?.1 ⟨e, he⟩).imp_right ?_⟩
    exact fun hf => ⟨hf, Nat.not_lt.1 fun hshort => hlast ((hseen hf).2 hshort)⟩
  · rintro ⟨hsource, hinside, hshort, hthere⟩
    refine ⟨hsource, (hseen hinside).2 hshort, exists_entryAt?.2 (hthere.imp_right And.left), ?_⟩
    rintro hlast
    rcases hthere with ⟨c, hc⟩ | ⟨hf, hlong⟩
    · have hc := Folder.contentAt?_eq_some.1 hc
      obtain ⟨g, hg⟩ := isFolder_of_kind? hne (fun m hm => (hname hc m hm).1) hlast
      rw [hc] at hg
      cases hg
    · exact Nat.not_le.2 ((hseen hf).1 hlast) hlong

theorem Agrees.met_iff {d' : Disk} (hd : d.Works) (h : Agrees d d') :
    d'.Met root pre n ↔ d.Met root pre n := by
  have hthere {loc : List Text} :
      (∃ e, d'.root.entryAt? loc = some e) ↔ ∃ e, d.root.entryAt? loc = some e := by
    rw [exists_entryAt?, exists_entryAt?, h.folders, h.files]
  constructor
  · rintro ⟨h1, h2, h3, h4⟩
    rw [h.grows.place, hthere] at h3
    exact ⟨h1, (h.kind?_eq_folder hd).1 h2, h3, fun hk => h4 ((h.kind?_eq_folder hd).2 hk)⟩
  · rintro ⟨h1, h2, h3, h4⟩
    rw [← hthere, ← h.grows.place root] at h3
    exact ⟨h1, (h.kind?_eq_folder hd).2 h2, h3, fun hk => h4 ((h.kind?_eq_folder hd).1 hk)⟩

/-- A scan finds what can be met, in order. -/
theorem scan_eq_met (hd : d.Sound) (hroot : d.kind? root = some .folder) :
    ∃ files, (Source.scan (m := StateM Disk) root).run d = (.ok files, d) ∧
      files.Pairwise (fun p q => p.before q = true) ∧
      ∀ p, p ∈ files ↔ ∃ pre n, p = root.below (pre ++ [n]) ∧ d.Met root pre n := by
  refine ⟨_, by rw [run_scan, if_pos hroot], Path.pairwise_before_mergeSort
    (pairwise_found hd.names hroot), fun p => ?_⟩
  rw [List.mem_mergeSort]
  refine ⟨met_of_mem_found hd.names hroot, ?_⟩
  rintro ⟨pre, n, rfl, hmet⟩
  exact mem_found_of_met hd.works hd.names hroot (Nat.le_add_right _ _) hmet

/-- A scan of a folder finds, each once and in the order of their paths, the files at any depth
whose names have the extension of a source, in whatever order the folders list what they hold; only
what lies in a folder whose path is too long to be asked about is missed, and such a folder is taken
for a file itself. -/
theorem scan_sources (hd : d.Sound) (hstored : d.root.AllNames IsStored)
    (hroot : d.kind? root = some .folder) :
    ∃ files, (Source.scan (m := StateM Disk) root).run d = (.ok files, d) ∧
      files.Pairwise (fun p q => p.before q = true) ∧
      (∀ p, p ∈ files ↔ ∃ pre n, p = root.below (pre ++ [n]) ∧
        Path.HasExtension ["bbcode".toList, "bb".toList] n ∧
        d.root.IsFolder (d.place root ++ pre) ∧ (root.below pre).text.byteLength < pathLimit ∧
        ((∃ c, d.root.contentAt? (d.place root ++ (pre ++ [n])) = some c) ∨
          d.root.IsFolder (d.place root ++ (pre ++ [n])) ∧ pathLimit ≤ p.text.byteLength)) ∧
      ((∀ names, d.root.IsFolder (d.place root ++ names) →
          (root.below names).text.byteLength < pathLimit) →
        ∀ p, p ∈ files ↔ ∃ pre n, p = root.below (pre ++ [n]) ∧
          Path.HasExtension ["bbcode".toList, "bb".toList] n ∧
          ∃ c, d.root.contentAt? (d.place root ++ (pre ++ [n])) = some c) ∧
      ∀ d', Agrees d d' → d'.root.Sound →
        (Source.scan (m := StateM Disk) root).run d' = (.ok files, d') := by
  obtain ⟨files, hscan, hsorted, hmem⟩ := scan_eq_met hd hroot
  have hexact : ∀ p, p ∈ files ↔ ∃ pre n, p = root.below (pre ++ [n]) ∧
      Path.HasExtension ["bbcode".toList, "bb".toList] n ∧
      d.root.IsFolder (d.place root ++ pre) ∧ (root.below pre).text.byteLength < pathLimit ∧
      ((∃ c, d.root.contentAt? (d.place root ++ (pre ++ [n])) = some c) ∨
        d.root.IsFolder (d.place root ++ (pre ++ [n])) ∧ pathLimit ≤ p.text.byteLength) := by
    intro p
    rw [hmem]
    refine exists_congr fun pre => exists_congr fun n => and_congr_right ?_
    rintro rfl
    rw [met_iff hd hstored hroot, Path.isSourceName_iff]
  refine ⟨files, hscan, hsorted, hexact, fun hshort p => ?_, fun d' h hsound => ?_⟩
  · rw [hexact]
    refine exists_congr fun pre => exists_congr fun n => and_congr_right ?_
    rintro rfl
    refine and_congr_right fun _ => ⟨?_, fun ⟨c, hc⟩ => ?_⟩
    · rintro ⟨-, -, hc | ⟨hf, hlong⟩⟩
      · exact hc
      · exact absurd hlong (Nat.not_le.2 (hshort _ hf))
    · have hinside : d.root.IsFolder (d.place root ++ pre) := by
        rw [← List.append_assoc, Folder.contentAt?_eq_some] at hc
        exact Folder.isFolder_of_entryAt? hc (by simp)
      exact ⟨hinside, hshort _ hinside, .inl ⟨c, hc⟩⟩
  · have hroot' := (h.kind?_eq_folder hd.works).2 hroot
    obtain ⟨files', hscan', hsorted', hmem'⟩ := scan_eq_met ⟨hsound, h.grows.works hd.works⟩ hroot'
    rw [hscan', Path.eq_of_pairwise_before hsorted' hsorted fun p => ?_]
    simp only [hmem, hmem', h.met_iff hd.works]

/-- A source in the folder `a` and one beside it, whose path as a text would come first. -/
def nested : Disk where
  root := .folder "in".toList
    (.file "a-b.bb".toList .empty (.folder "a".toList (.file "x.BB".toList .empty .empty) .empty))
    .empty

theorem scan_sources_nested : nested.Sound ∧ nested.root.AllNames IsStored ∧
    nested.kind? ⟨"in".toList⟩ = some .folder ∧
    ∃ files, (Source.scan (m := StateM Disk) ⟨"in".toList⟩).run nested = (.ok files, nested) ∧
      files.Pairwise (fun p q => p.before q = true) ∧
      ⟨"in/a/x.BB".toList⟩ ∈ files ∧ ⟨"in/a-b.bb".toList⟩ ∈ files := by
  have hsound : nested.Sound := by
    refine ⟨?_, Folder.isFolder_nil _⟩
    simp only [nested, Folder.Sound, Folder.find?, and_true, true_and]
    decide
  have hstored : nested.root.AllNames IsStored := by
    simp only [nested, Folder.AllNames, and_true]
    refine ⟨⟨?_, ?_⟩, ⟨?_, ?_⟩, ⟨?_, ?_⟩, ?_, ?_⟩ <;> decide
  have hkind : nested.kind? ⟨"in".toList⟩ = some .folder := rfl
  obtain ⟨files, hscan, hsorted, hmem, -⟩ := scan_sources hsound hstored hkind
  refine ⟨hsound, hstored, hkind, files, hscan, hsorted, (hmem _).2 ?_, (hmem _).2 ?_⟩
  · exact ⟨["a".toList], "x.BB".toList, by decide, Path.isSourceName_iff.1 (by decide), ⟨_, rfl⟩,
      by decide, .inl ⟨_, rfl⟩⟩
  · exact ⟨[], "a-b.bb".toList, by decide, Path.isSourceName_iff.1 (by decide), ⟨_, rfl⟩,
      by decide, .inl ⟨_, rfl⟩⟩

/-- A source in a folder with a name of `k` letters. -/
def buried (k : Nat) : Disk where
  root := .folder (List.replicate k 'd') (.file "x.bb".toList .empty .empty) .empty

/-- The working folder, spelled as a dot with `n` slashes behind it. -/
def slashed (n : Nat) : Path := ⟨'.' :: List.replicate n '/'⟩

theorem segments_slashes (n : Nat) : Path.segments (List.replicate n '/') = [] := by
  induction n with
  | zero => rfl
  | succ n ih =>
    rw [List.replicate_succ, ← List.nil_append ('/' :: _), Path.segments_append, ih]
    rfl

theorem segments_slashed (n : Nat) : Path.segments (slashed n).text = [Path.dot] := by
  cases n with
  | zero => rfl
  | succ n =>
    show Path.segments (['.'] ++ '/' :: List.replicate n '/') = [Path.dot]
    rw [Path.segments_append, segments_slashes]
    rfl

theorem start_slashed (d : Disk) (n : Nat) : d.start (slashed n) = d.working := rfl

theorem place_slashed (d : Disk) (n : Nat) : d.place (slashed n) = d.working := by
  rw [place, start_slashed, segments_slashed]
  rfl

/-- A row of a character of one byte has as many bytes as characters. -/
theorem byteLength_replicate (n : Nat) {c : Char} (hc : c.utf8Size = 1) :
    Text.byteLength (List.replicate n c) = n := by
  induction n with
  | zero => rfl
  | succ n ih => rw [List.replicate_succ, Text.byteLength_cons, ih, hc, Nat.add_comm]

theorem byteLength_slashed (n : Nat) : (slashed n).text.byteLength = n + 1 := by
  rw [slashed, Text.byteLength_cons, byteLength_replicate n (by decide)]
  exact Nat.add_comm 1 n

section

variable {k n : Nat}

theorem buried_sound (hk : 0 < k) : (buried k).Sound := by
  have hd : 'd' ∈ List.replicate k 'd' := List.mem_replicate.2 ⟨hk.ne', rfl⟩
  have hname : Path.IsName (List.replicate k 'd') := by
    refine ⟨List.ne_nil_of_mem hd, by simp [List.mem_replicate], fun h => ?_, fun h => ?_⟩
    · rw [h] at hd
      exact absurd hd (by decide)
    · rw [h] at hd
      exact absurd hd (by decide)
  exact ⟨⟨hname, rfl, ⟨by decide, rfl, trivial⟩, trivial⟩, Folder.isFolder_nil _⟩

theorem buried_stored (hk : k ≤ nameLimit) : (buried k).root.AllNames IsStored := by
  have hstored : IsStored (List.replicate k 'd') := by
    refine ⟨?_, by simp [List.mem_replicate]⟩
    rwa [byteLength_replicate k (by decide)]
  exact ⟨hstored, ⟨⟨by decide, by decide⟩, trivial⟩, trivial⟩

theorem kind?_slashed {d : Disk} (hd : d.Works) (hshort : n + 1 < pathLimit) :
    d.kind? (slashed n) = some .folder := by
  refine (kind?_eq_folder_iff hd).2 ⟨List.cons_ne_nil _ _, ?_, ?_, ?_⟩
  · simp [slashed, List.mem_replicate]
  · rwa [byteLength_slashed]
  · rw [segments_slashed, Opens, if_pos rfl]
    trivial

/-- The source is not found, although nothing is said about a failure. -/
theorem run_scan_buried (hk : 0 < k) (hn : 0 < n) (hshort : n + 1 < pathLimit)
    (hlong : pathLimit ≤ n + 1 + k) :
    (Source.scan (m := StateM Disk) (slashed n)).run (buried k) = (.ok [], buried k) := by
  have hsound := buried_sound hk
  have hroot := kind?_slashed hsound.works hshort
  obtain ⟨g, hg⟩ := kind?_eq_folder.1 hroot
  have hnames : g.names = [List.replicate k 'd'] := by
    have hroot := entryAt?_of_entry hg
    rw [place_slashed] at hroot
    cases hroot
    rfl
  have hchild : ((slashed n).child (List.replicate k 'd')).text =
      (slashed n).text ++ List.replicate k 'd' := by
    simp [Path.child, slashed, List.getLast?_cons, List.getLast?_replicate, hn.ne']
  have hunseen : (buried k).kind? ((slashed n).child (List.replicate k 'd')) ≠ some .folder := by
    intro h
    obtain ⟨-, -, hshort, -⟩ := (kind?_eq_folder_iff hsound.works).1 h
    rw [hchild, Text.byteLength_append, byteLength_slashed,
      byteLength_replicate k (by decide)] at hshort
    omega
  have hsource : ((slashed n).child (List.replicate k 'd')).isSource = false := by
    have hne : (slashed n).text ≠ [] := List.cons_ne_nil _ _
    rw [Path.isSource_child hne hsound.names.1, Bool.eq_false_iff]
    intro h
    obtain ⟨stem, ext, hn, -⟩ := Path.isSourceName_iff.1 h
    have hdot : '.' ∈ List.replicate k 'd' := by
      rw [hn]
      simp
    exact absurd (List.eq_of_mem_replicate hdot) (by decide)
  have hfound : (buried k).found pathLimit (slashed n) = [] := by
    rw [show pathLimit = 4095 + 1 from rfl, found_succ hg, hnames, List.flatMap_singleton,
      if_neg hunseen, List.filter_singleton, hsource]
    rfl
  exact run_scan_sorted hroot hfound List.Pairwise.nil

end

/-- Not every scan of a folder finds the sources in it. -/
theorem scan_incomplete : ¬ ∀ (d : Disk) (root : Path), d.Sound → d.root.AllNames IsStored →
    d.kind? root = some .folder →
    ∃ files, (Source.scan (m := StateM Disk) root).run d = (.ok files, d) ∧
      ∀ p, p ∈ files ↔ ∃ pre n, p = root.below (pre ++ [n]) ∧
        Path.HasExtension ["bbcode".toList, "bb".toList] n ∧
        ∃ c, d.root.contentAt? (d.place root ++ (pre ++ [n])) = some c := by
  intro h
  have hlong (k n : Nat) (hk : 0 < k) (hname : k ≤ nameLimit) (hn : 0 < n)
      (hshort : n + 1 < pathLimit) : ¬ pathLimit ≤ n + 1 + k := by
    intro hlong
    have hsound := buried_sound hk
    obtain ⟨files, hscan, hmem⟩ := h (buried k) (slashed n) hsound (buried_stored hname)
      (kind?_slashed hsound.works hshort)
    cases (run_scan_buried hk hn hshort hlong).symm.trans hscan
    refine List.not_mem_nil ((hmem _).2 ⟨[List.replicate k 'd'], "x.bb".toList, rfl,
      Path.isSourceName_iff.1 (by decide), .empty, ?_⟩)
    rw [place_slashed, Folder.contentAt?_eq_some]
    simp [buried, Folder.entryAt?, Folder.find?]
  exact hlong 200 3900 (by decide) (by decide) (by decide) (by decide) (by decide)

end Disk

end BBCode
