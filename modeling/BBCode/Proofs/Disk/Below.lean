import BBCode.Proofs.Disk.Run

/-!
# BBCode.Proofs.Disk.Below

The files that are read and written by relative paths, and whether they lie below the root. Where a
relative path leads can be told from its dots and names: some folders up from the root, and down
again by names. Neither reading nor writing looks at that; so a path that leads up reaches what lies
beside the root.

* `place_eq_climb`: the place of a relative path.
* `makes_makeFoldersAt`: only the folders that a path names on its way are made.
* `source_place`: what is read and what is changed, and when that lies below the root.
-/

namespace BBCode

namespace Path

/-- Where segments lead, if what comes before them leads so many folders up and then down by
`names`. -/
def climbFrom (up : Nat) (names : List Text) : List Text → Nat × List Text
  | [] => (up, names)
  | s :: ss =>
    if s = dot then climbFrom up names ss
    else if s = dots then
      if names = [] then climbFrom (up + 1) [] ss else climbFrom up names.dropLast ss
    else climbFrom up (names ++ [s]) ss

/-- How many folders up segments lead, and the names by which they lead down from there. -/
def climb (ss : List Text) : Nat × List Text := climbFrom 0 [] ss

theorem climbFrom_append (up : Nat) (names a b : List Text) :
    climbFrom up names (a ++ b) =
      climbFrom (climbFrom up names a).1 (climbFrom up names a).2 b := by
  fun_induction climbFrom up names a with
  | case1 up names => rfl
  | case2 up names ss ih => simpa [climbFrom] using ih
  | case3 up ss h ih => simpa [climbFrom, h] using ih
  | case4 up names ss h hne ih => simpa [climbFrom, h, hne] using ih
  | case5 up names s ss h1 h2 ih => simpa [climbFrom, h1, h2] using ih

theorem le_climbFrom (up : Nat) (names ss : List Text) : up ≤ (climbFrom up names ss).1 := by
  fun_induction climbFrom up names ss with
  | case1 up names => exact Nat.le_refl up
  | case2 up names ss ih => exact ih
  | case3 up ss h ih => omega
  | case4 up names ss h hne ih => exact ih
  | case5 up names s ss h1 h2 ih => exact ih

/-- What leads up once, leads up at the end. -/
theorem climb_prefix {a ss : List Text} (h : a <+: ss) : (climb a).1 ≤ (climb ss).1 := by
  obtain ⟨b, rfl⟩ := h
  rw [climb, climb, climbFrom_append]
  exact le_climbFrom _ _ _

end Path

namespace Disk

open FileSystem

variable {α β : Type} {d d' : Disk} {p : Path} {ps : List Path} {l : List Text}

theorem walk_climbFrom (here : List Text) (up : Nat) (names ss : List Text) :
    walk (here.take (here.length - up) ++ names) ss =
      here.take (here.length - (Path.climbFrom up names ss).1) ++
        (Path.climbFrom up names ss).2 := by
  fun_induction Path.climbFrom up names ss with
  | case1 up names => rfl
  | case2 up names ss ih => rw [walk, if_pos rfl, ih]
  | case3 up ss h ih =>
    have hup : (here.take (here.length - up)).dropLast = here.take (here.length - (up + 1)) := by
      rw [List.dropLast_eq_take, List.take_take, List.length_take]
      congr 1
      omega
    rw [walk, if_neg h, if_pos rfl, List.append_nil, hup, ← ih, List.append_nil]
  | case4 up names ss hne h ih =>
    rw [walk, if_neg h, if_pos rfl, List.dropLast_append_of_ne_nil hne, ih]
  | case5 up names s ss h1 h2 ih => rw [walk, if_neg h1, if_neg h2, List.append_assoc, ih]

/-- The place of a relative path. -/
theorem walk_eq_climb (here ss : List Text) :
    walk here ss = here.take (here.length - (Path.climb ss).1) ++ (Path.climb ss).2 := by
  have h := walk_climbFrom here 0 [] ss
  rwa [Nat.sub_zero, List.take_length, List.append_nil] at h

/-! ## New folders -/

theorem isFolder_of_makeFolder (hd : d.Works) (h : d.makeFolder p = .ok d')
    (hl : d'.root.IsFolder l) : d.root.IsFolder l ∨ l = d.place p := by
  unfold makeFolder at h
  split at h
  · cases h
  · cases h
  · rename_i here n slash ht
    split at h
    · cases h
    · rename_i hv
      cases h
      have hfree : d.root.Free here n :=
        ⟨isFolder_of_locate hd ht, fun ⟨g, hg⟩ => by rw [hv] at hg; cases hg⟩
      rcases hl.of_putAt (fun g hg => by cases hg; rfl) hfree with hl | ⟨rfl, -⟩
      · exact .inl hl
      · exact .inr (place_of_locate ht).symm

theorem isFolder_of_writeFile {c : ByteArray} (hd : d.Works) (h : d.writeFile p c = .ok d')
    (hl : d'.root.IsFolder l) : d.root.IsFolder l := by
  unfold writeFile at h
  split at h
  · cases h
  · cases h
  · rename_i here n slash ht
    split at h
    · cases h
    · split at h
      · cases h
      · rename_i hv
        cases h
        have hfree : d.root.Free here n := ⟨isFolder_of_locate hd ht, fun ⟨g, hg⟩ => hv g hg⟩
        rcases hl.of_putAt (fun g hg => by cases hg) hfree with hl | ⟨-, he⟩
        · exact hl
        · cases he

/-- Only places of the given paths become folders. -/
def Makes (ps : List Path) (x : StateM Disk α) : Prop :=
  ∀ d : Disk, d.Works → ∀ l, (x.run d).2.root.IsFolder l →
    d.root.IsFolder l ∨ ∃ p ∈ ps, l = d.place p

theorem Makes.bind {x : StateM Disk α} {f : α → StateM Disk β} (hq : Quiet x) (hx : Makes ps x)
    (hf : ∀ a, Makes ps (f a)) : Makes ps (x >>= f) := by
  intro d hd l hl
  obtain ⟨hg, -⟩ := hq d hd
  rcases hf (x.run d).1 (x.run d).2 (hg.works hd) l hl with hl | ⟨p, hp, hl⟩
  · exact hx d hd l hl
  · exact .inr ⟨p, hp, hl.trans (hg.place p)⟩

theorem makes_makeFoldersAt (ps : List Path) :
    Quiet (makeFoldersAt ps) ∧ Makes ps (makeFoldersAt ps) := by
  refine makeFoldersAt_induction (P := fun x => Quiet x ∧ Makes ps x)
    (fun a => ⟨quiet_pure a, fun _ _ _ => .inl⟩)
    (fun hx hf => ⟨hx.1.bind fun a => (hf a).1, hx.2.bind hx.1 fun a => (hf a).2⟩)
    (fun p => ⟨quiet_isFolder? p, fun _ _ _ => .inl⟩)
    (fun p hp => ⟨quiet_makeFolder p, fun d hd l hl => ?_⟩)
  have hrun : (FileSystem.makeFolder (m := StateM Disk) p).run d =
      (change fun d => d.makeFolder p).run d := rfl
  rw [hrun, run_change] at hl
  cases hm : d.makeFolder p with
  | error e =>
    rw [hm] at hl
    exact .inl hl
  | ok d' =>
    rw [hm] at hl
    exact (isFolder_of_makeFolder hd hm hl).imp_right fun h => ⟨p, hp, h⟩

/-! ## Documents -/

/-- The file that a relative path leads to lies below the root. -/
def Below (d : Disk) (root : Path) (t : Text) : Prop :=
  ∃ names, names ≠ [] ∧ d.place (root.resolve t) = d.place root ++ names

theorem place_eq_climb (d : Disk) (root : Path) (t : Text) :
    d.place (root.resolve t) =
      (d.place root).take ((d.place root).length - (Path.climb (Path.segments t)).1) ++
        (Path.climb (Path.segments t)).2 := by
  rw [place_resolve, walk_eq_climb]

/-- A path leads below the root if its names lead back down the way it goes up, and further. -/
theorem below_iff (d : Disk) (root : Path) (t : Text) :
    d.Below root t ↔ ∃ names, names ≠ [] ∧ (Path.climb (Path.segments t)).2 =
      (d.place root).drop ((d.place root).length - (Path.climb (Path.segments t)).1) ++ names := by
  rw [Below, place_eq_climb]
  generalize (d.place root).length - (Path.climb (Path.segments t)).1 = n
  refine exists_congr fun names => and_congr_right fun _ => ?_
  conv => lhs; rhs; rw [← List.take_append_drop n (d.place root)]
  rw [List.append_assoc, List.append_cancel_left_eq]

theorem run_read (root : Path) (t : Text) (d : Disk) :
    ((Source.read (m := StateM Disk) root t).run d).2 = d ∧
      ∀ s, ((Source.read (m := StateM Disk) root t).run d).1 = .ok s ↔
        d.text (root.resolve t) = .ok s := by
  have hexists : (exists? (m := StateM Disk) (root.resolve t)).run d =
      ((d.kind? (root.resolve t)).isSome, d) := rfl
  rw [Source.read, run_bind, hexists]
  cases hk : d.kind? (root.resolve t) with
  | none =>
    refine ⟨rfl, fun s => ⟨nofun, fun h => ?_⟩⟩
    rw [kind?_of_text h] at hk
    cases hk
  | some k =>
    rw [Option.isSome_some]
    dsimp only
    rw [if_pos rfl, run_bind, run_readText]
    cases d.text (root.resolve t) with
    | ok s => exact ⟨rfl, fun s' => ⟨fun h => by cases h; rfl, fun h => by cases h; rfl⟩⟩
    | error e => exact ⟨rfl, fun s' => ⟨nofun, nofun⟩⟩

section

variable {root : Path} {s t : Text} {r : Except SourceError Unit}

/-- A write changes the content at the place of its path alone, and only if it succeeds. -/
theorem contentAt?_of_write (hd : d.Works)
    (h : (Source.write (m := StateM Disk) root t s).run d = (r, d'))
    (hl : d'.root.contentAt? l ≠ d.root.contentAt? l) :
    r = .ok () ∧ l = d.place (root.resolve t) := by
  obtain ⟨x, d1, hx, ⟨-, rfl⟩ | ⟨rfl, -⟩⟩ := run_write h
  · obtain ⟨-, hs⟩ := quiet_makeFoldersAt (root.resolve t).folders.tail d hd
    rw [hx] at hs
    exact absurd (hs l) hl
  · have hfile := (write_eq_ok hd h).files l
    split at hfile
    · rename_i hplace
      exact ⟨rfl, hplace⟩
    · exact absurd hfile hl

/-- A write makes no folders but on the way to the root and on the way from there to its file. -/
theorem isFolder_of_write (hd : d.Works)
    (h : (Source.write (m := StateM Disk) root t s).run d = (r, d')) (hl : d'.root.IsFolder l) :
    d.root.IsFolder l ∨ ∃ a, (a <+: Path.segments root.text ∧ l = walk (d.start root) a) ∨
      (a <+: Path.segments t ∧ l = walk (d.place root) a) := by
  obtain ⟨hquiet, hmakes⟩ := makes_makeFoldersAt (root.resolve t).folders.tail
  obtain ⟨x, d1, hx, hcases⟩ := run_write h
  obtain ⟨hg, -⟩ := hquiet d hd
  have hmakes := hmakes d hd l
  rw [hx] at hg hmakes
  have hl : d1.root.IsFolder l := by
    rcases hcases with ⟨-, rfl⟩ | ⟨-, hw⟩
    · exact hl
    · rw [run_writeText] at hw
      cases hf : d1.writeFile (root.resolve t) (String.ofList s).toUTF8 with
      | error e =>
        rw [hf] at hw
        cases hw
      | ok d2 =>
        rw [hf] at hw
        cases hw
        exact isFolder_of_writeFile (hg.works hd) hf hl
  refine (hmakes hl).imp_right ?_
  rintro ⟨q, hq, rfl⟩
  obtain ⟨habs, hpre⟩ := Path.prefix_of_mem_folders (List.mem_of_mem_tail hq)
  rw [Path.isAbsolute_resolve] at habs
  rw [Path.segments_resolve] at hpre
  have hstart : d.start q = d.start root := by rw [start, start, habs]
  rw [place, hstart]
  rcases List.prefix_or_prefix_of_prefix hpre (List.prefix_append _ _) with hroot | ⟨a, ha⟩
  · exact ⟨_, .inl ⟨hroot, rfl⟩⟩
  · rw [← ha, List.prefix_append_right_inj] at hpre
    refine ⟨a, .inr ⟨hpre, ?_⟩⟩
    rw [← ha, walk_append]
    rfl

end

/-- What is read and what is changed for a relative path. The file is the one at the place of the
path, wherever that is. -/
theorem source_place (hd : d.Works) (root : Path) (t : Text) :
    (∀ r d', (Source.read (m := StateM Disk) root t).run d = (r, d') →
      d' = d ∧ ∀ s, r = .ok s ↔ d.Leads (root.resolve t) ∧
        ∃ c, d.root.contentAt? (d.place (root.resolve t)) = some c ∧ decode c = .ok s) ∧
    (∀ s r d', (Source.write (m := StateM Disk) root t s).run d = (r, d') →
      (r = .ok () →
        d'.root.contentAt? (d.place (root.resolve t)) = some (String.ofList s).toUTF8) ∧
      (∀ l, d'.root.contentAt? l ≠ d.root.contentAt? l →
        r = .ok () ∧ l = d.place (root.resolve t)) ∧
      ∀ l, d'.root.IsFolder l → d.root.IsFolder l ∨
        ∃ a, (a <+: Path.segments root.text ∧ l = walk (d.start root) a) ∨
          (a <+: Path.segments t ∧ l = walk (d.place root) a)) ∧
    (d.Below root t ↔ ∃ names, names ≠ [] ∧ (Path.climb (Path.segments t)).2 =
      (d.place root).drop ((d.place root).length - (Path.climb (Path.segments t)).1) ++ names) ∧
    ((Path.climb (Path.segments t)).1 = 0 →
      ∀ a, a <+: Path.segments t → d.place root <+: walk (d.place root) a) := by
  refine ⟨fun r d' h => ?_, fun s r d' h => ⟨?_, fun l => contentAt?_of_write hd h,
    fun l => isFolder_of_write hd h⟩, below_iff d root t, fun hup a ha => ?_⟩
  · obtain ⟨hd', hr⟩ := run_read root t d
    rw [h] at hd' hr
    exact ⟨hd', fun s => (hr s).trans text_eq_ok⟩
  · rintro rfl
    rw [(write_eq_ok hd h).files, if_pos rfl]
  · have hzero : (Path.climb a).1 = 0 := Nat.le_zero.1 (hup ▸ Path.climb_prefix ha)
    rw [walk_eq_climb, hzero, Nat.sub_zero, List.take_length]
    exact List.prefix_append _ _

/-- A text beside an empty folder. -/
def besideRoot : Disk :=
  { root := .file "secret.txt".toList (String.ofList ['s']).toUTF8
      (.folder "root".toList .empty .empty) }

theorem text_besideRoot :
    besideRoot.text (Path.resolve ⟨"root".toList⟩ "../secret.txt".toList) = .ok ['s'] := by
  have hread : besideRoot.readFile (Path.resolve ⟨"root".toList⟩ "../secret.txt".toList) =
      .ok (String.ofList ['s']).toUTF8 := rfl
  rw [text, hread]
  exact decode_toUTF8 ['s']

/-- Names lead below the root however many dots stand between them, and a path that leads up does
not, although a file is there. -/
theorem source_place_besideRoot : besideRoot.Works ∧
    besideRoot.Below ⟨"root".toList⟩ "/./a//../b".toList ∧
    ¬ besideRoot.Below ⟨"root".toList⟩ "../secret.txt".toList ∧
    ((Source.read (m := StateM Disk) ⟨"root".toList⟩ "../secret.txt".toList).run besideRoot).1 =
      .ok ['s'] := by
  have hworks : besideRoot.Works := Folder.isFolder_nil _
  obtain ⟨-, -, hinside, -⟩ := source_place hworks ⟨"root".toList⟩ "/./a//../b".toList
  obtain ⟨hread, -, houtside, -⟩ := source_place hworks ⟨"root".toList⟩ "../secret.txt".toList
  refine ⟨hworks, hinside.2 ⟨["b".toList], by decide, by decide⟩, fun hbelow => ?_, ?_⟩
  · obtain ⟨names, -, hnames⟩ := houtside.1 hbelow
    have hclimb : Path.climb (Path.segments "../secret.txt".toList) =
        (1, ["secret.txt".toList]) := by decide
    have hplace : besideRoot.place ⟨"root".toList⟩ = ["root".toList] := by decide
    rw [hclimb, hplace] at hnames
    exact absurd (List.cons.inj hnames).1 (by decide)
  · exact ((hread _ _ rfl).2 ['s']).2 (text_eq_ok.1 text_besideRoot)

/-- Not every file that is read lies below the root. -/
theorem read_outside : ¬ ∀ (d : Disk) (root : Path) (t : Text), d.Works →
    (∀ s, (Source.read (m := StateM Disk) root t).run d = (.ok s, d) → d.Below root t) ∧
      ∀ s d', (Source.write (m := StateM Disk) root t s).run d = (.ok (), d') → d.Below root t := by
  intro h
  obtain ⟨hread, -⟩ := h besideRoot ⟨"root".toList⟩ "../secret.txt".toList (Folder.isFolder_nil _)
  obtain ⟨hdisk, htext⟩ := run_read ⟨"root".toList⟩ "../secret.txt".toList besideRoot
  obtain ⟨names, -, hnames⟩ := hread ['s'] (Prod.ext ((htext ['s']).2 text_besideRoot) hdisk)
  have hplace : besideRoot.place (Path.resolve ⟨"root".toList⟩ "../secret.txt".toList) =
      ["secret.txt".toList] := by decide
  have hroot : besideRoot.place ⟨"root".toList⟩ = ["root".toList] := by decide
  rw [hplace, hroot] at hnames
  exact absurd (List.cons.inj hnames).1 (by decide)

end Disk

end BBCode
