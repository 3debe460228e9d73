import BBCode.Proofs.Conversion.Folder
import BBCode.Proofs.Disk.Below

/-!
# BBCode.Proofs.Conversion.Failure

What is on the disk after the conversion of a folder that failed. Sources are converted one after the
other, so a failure leaves the outputs of those before it and nothing else; and since an output is
never called like a source, no source is changed even where outputs are put among the sources.

* `Fails.sameFiles`: the source that fails leaves every file as it was.
* `Converts.contentAt?_eq`: what the others leave at every place, as they were at the start.
* `folder_contents`: what the conversion of a folder leaves, whether it fails or not.
-/

namespace BBCode

open FileSystem

namespace Conversion

variable {c : Conversion} {input output file : Path} {files pre : List Path} {d d0 d1 d' : Disk}
  {es : List Event} {l : List Text} {n : Text} {r : Except ConversionError Unit}
  {e : ConversionError}

theorem Fails.sameFiles (hd : d.Works) (h : Fails c input output file d e d') :
    Disk.SameFiles d d' := by
  cases h with
  | unreadable _ => exact fun _ => rfl
  | misplaced _ _ => exact fun _ => rfl
  | unwritable _ _ hw =>
    intro l
    by_contra hl
    exact absurd (Disk.contentAt?_of_write hd hw hl).1 nofun

/-- The place for the output of a source, and what is put there. -/
def output? (c : Conversion) (input output : Path) (d : Disk) (file : Path) :
    Option (List Text × ByteArray) :=
  match d.text file, Source.outputPath input file with
  | .ok s, .ok t => some (d.place (output.resolve t), (String.ofList (c.render s)).toUTF8)
  | _, _ => none

/-- What stands at every place after a file was put at one. -/
def put (contents : List Text → Option ByteArray) (x : List Text × ByteArray) :
    List Text → Option ByteArray :=
  fun l => if l = x.1 then some x.2 else contents l

namespace Converts

theorem append (h : Converts c input output pre d d1) (h' : Converts c input output files d1 d') :
    Converts c input output (pre ++ files) d d' := by
  induction h with
  | nil => exact h'
  | cons hs ht hw _ ih => exact .cons hs ht hw (ih h')

/-- The outputs of sources that are converted after others are those of the sources at the start. -/
theorem contentAt?_eq (hbefore : Converts c input output pre d0 d)
    (h : Converts c input output files d d')
    (hfound : ∀ g ∈ pre ++ files, ∃ pre n, g = input.below (pre ++ [n]) ∧ Found d0 input pre n) :
    d'.root.contentAt? =
      (files.filterMap (c.output? input output d0)).foldl put d.root.contentAt? := by
  induction h generalizing pre with
  | nil => rfl
  | @cons file files d d1 d' s t hs ht hw _ ih =>
    have hread : d0.text file = .ok s := by
      obtain ⟨names, n, rfl, hf⟩ := hfound file (by simp)
      exact hbefore.text_before hf (fun g hg => hfound g (List.mem_append_left _ hg)) hs
    have hfirst : d1.root.contentAt? = put d.root.contentAt?
        (d0.place (output.resolve t), (String.ofList (c.render s)).toUTF8) := by
      funext l
      rw [hw.files, hbefore.grows.place]
      rfl
    have hout : c.output? input output d0 file =
        some (d0.place (output.resolve t), (String.ofList (c.render s)).toUTF8) := by
      rw [output?, hread, ht]
    rw [List.filterMap_cons_some hout, List.foldl_cons, ← hfirst]
    exact ih (hbefore.append (.cons hs ht hw .nil)) fun g hg => hfound g (by simpa using hg)

theorem isSome_output? (h : Converts c input output files d d')
    (hfound : ∀ g ∈ files, ∃ pre n, g = input.below (pre ++ [n]) ∧ Found d input pre n)
    (hfile : file ∈ files) : (c.output? input output d file).isSome = true := by
  obtain ⟨fs, gs, rfl⟩ := List.append_of_mem hfile
  obtain ⟨s, t, d1, d2, hbefore, hs, ht, -, -⟩ := h.split
  obtain ⟨pre, n, rfl, hf⟩ := hfound file hfile
  have hread := hbefore.text_before hf (fun g hg => hfound g (List.mem_append_left _ hg)) hs
  rw [output?, hread, ht]
  rfl

/-- No file that is called like a source is changed. -/
theorem contentAt?_source (h : Converts c input output files d d')
    (hfound : ∀ g ∈ files, ∃ pre n, g = input.below (pre ++ [n]) ∧ Found d input pre n)
    (hn : Path.isSourceName n = true) :
    d'.root.contentAt? (l ++ [n]) = d.root.contentAt? (l ++ [n]) := by
  refine h.frame fun g hg t ht heq => ?_
  obtain ⟨names, m, rfl, hf⟩ := hfound g hg
  cases hf.outputPath.symm.trans ht
  rw [hf.place_output] at heq
  obtain ⟨-, hlast⟩ := List.append_inj' heq rfl
  have := Path.isSourceName_replaceExtension hf.source
  rw [← List.singleton_inj.1 hlast, hn] at this
  cases this

end Converts

/-- After the conversion of a folder every file called like a source is as it was. If it fails, it
does so at the scan, and nothing is changed, or at some source, and the files are those of before with
the outputs of the sources before that one, put there in the order of the scan. -/
theorem folder_contents (hd : d.Sound)
    (h : (c.folder (m := StateM Disk) input output).run d = ((es, r), d')) :
    (∀ l n, Path.HasExtension ["bbcode".toList, "bb".toList] n →
      d'.root.contentAt? (l ++ [n]) = d.root.contentAt? (l ++ [n])) ∧
    ((∃ x, (Source.scan (m := StateM Disk) input).run d = (.error x, d) ∧
      r = .error (.misplaced x) ∧ d' = d) ∨
    ∃ files, (Source.scan (m := StateM Disk) input).run d = (.ok files, d) ∧
      ∃ done rest, files = done ++ rest ∧
        (∀ g ∈ done, (c.output? input output d g).isSome = true) ∧
        d'.root.contentAt? =
          (done.filterMap (c.output? input output d)).foldl put d.root.contentAt? ∧
        ((r = .ok () ∧ rest = []) ∨ ∃ file others e, rest = file :: others ∧ r = .error e ∧
          ((∃ cause, e = .unreadable file cause ∧ ∀ s, d.text file ≠ .ok s) ∨
          (∃ x, e = .misplaced x ∧ Source.outputPath input file = .error x) ∨
          ∃ s t x d1, e = .misplaced x ∧ d.text file = .ok s ∧
            Source.outputPath input file = .ok t ∧ d1.root.contentAt? = d'.root.contentAt? ∧
            (Source.write (m := StateM Disk) output t (c.render s)).run d1 = (.error x, d')))) := by
  obtain ⟨x, hscan, rfl, rfl⟩ | ⟨files, hscan, hrun⟩ := folder_cases hd.works h
  · exact ⟨fun _ _ _ => rfl, .inl ⟨x, hscan, rfl, rfl⟩⟩
  have hfound (g : Path) (hg : g ∈ files) := found_of_mem hd hscan hg
  obtain ⟨rfl, hrun⟩ | ⟨done, file, others, e, d1, rfl, rfl, hdone, hfail⟩ := hrun
  · refine ⟨fun l n hn => hrun.contentAt?_source hfound (Path.isSourceName_iff.2 hn), .inr ⟨files,
      hscan, files, [], (List.append_nil _).symm, fun g hg => hrun.isSome_output? hfound hg, ?_,
      .inl ⟨rfl, rfl⟩⟩⟩
    exact Converts.contentAt?_eq .nil hrun hfound
  · have hbefore (g : Path) (hg : g ∈ done) := hfound g (List.mem_append_left _ hg)
    have hsame := hfail.sameFiles (hdone.grows.works hd.works)
    have hcontent : d'.root.contentAt? = d1.root.contentAt? := funext hsame
    obtain ⟨pre, n, hfile, hf⟩ := hfound file (by simp)
    refine ⟨fun l n hn => ?_, .inr ⟨_, hscan, done, file :: others, rfl, fun g hg =>
      hdone.isSome_output? hbefore hg, ?_, .inr ⟨file, others, e, rfl, rfl, ?_⟩⟩⟩
    · rw [hcontent]
      exact hdone.contentAt?_source hbefore (Path.isSourceName_iff.2 hn)
    · rw [hcontent]
      exact Converts.contentAt?_eq .nil hdone hbefore
    · cases hfail with
      | @unreadable cause hs =>
        refine .inl ⟨cause, rfl, fun s hread => ?_⟩
        have hlater := hdone.text_after (fun g hg t ht heq => ?_) hread
        · rw [hs] at hlater
          cases hlater
        · obtain ⟨pre', n', rfl, hg'⟩ := hbefore g hg
          cases hg'.outputPath.symm.trans ht
          exact hf.place_ne hg' (hfile ▸ heq)
      | misplaced hs ht => exact .inr (.inl ⟨_, rfl, ht⟩)
      | @unwritable s t x _ hs ht hw =>
        have hread : d.text file = .ok s := by
          subst hfile
          exact hdone.text_before hf hbefore hs
        exact .inr (.inr ⟨s, t, x, d1, rfl, hread, ht, hcontent.symm, hw⟩)

/-- Two documents, and a folder in the place of the output of the second one. -/
def halfway : Disk where
  root := .folder "in".toList
    (.file "a.bb".toList (String.ofList ['x']).toUTF8
      (.file "b.bb".toList (String.ofList ['y']).toUTF8
        (.folder "b.html".toList .empty .empty))) .empty

/-- The same with the output of the first one. -/
def halfwayWith (s : Text) : Disk where
  root := .folder "in".toList
    (.file "a.bb".toList (String.ofList ['x']).toUTF8
      (.file "b.bb".toList (String.ofList ['y']).toUTF8
        (.folder "b.html".toList .empty
          (.file "a.html".toList (String.ofList s).toUTF8 .empty)))) .empty

theorem halfway_sound : halfway.Sound where
  names := ⟨by decide, rfl, ⟨by decide, rfl, by decide, rfl, by decide, rfl, trivial, trivial⟩,
    trivial⟩
  works := Folder.isFolder_nil _

theorem run_scan_halfway : (Source.scan (m := StateM Disk) ⟨"in".toList⟩).run halfway =
    (.ok [⟨"in/a.bb".toList⟩, ⟨"in/b.bb".toList⟩], halfway) := by
  have hkind : halfway.kind? ⟨"in".toList⟩ = some .folder := rfl
  have hfound : halfway.found pathLimit ⟨"in".toList⟩ =
      [⟨"in/a.bb".toList⟩, ⟨"in/b.bb".toList⟩] := rfl
  exact Disk.run_scan_sorted hkind hfound (by decide)

theorem folders_halfway :
    (Path.resolve ⟨"in".toList⟩ "a.html".toList).folders = [⟨"in/a.html".toList⟩, ⟨"in".toList⟩] ∧
      (Path.resolve ⟨"in".toList⟩ "b.html".toList).folders =
        [⟨"in/b.html".toList⟩, ⟨"in".toList⟩] :=
  ⟨Path.folders_pair (by decide) (by decide) (by decide) (by decide),
    Path.folders_pair (by decide) (by decide) (by decide) (by decide)⟩

theorem run_folder_halfway (c : Conversion) :
    (c.folder (m := StateM Disk) ⟨"in".toList⟩ ⟨"in".toList⟩).run halfway =
      ((c.remarks ['x'] ++ [.converted "in/a.bb".toList "a.html".toList] ++ c.remarks ['y'],
        .error (.misplaced (.io .isFolder))), halfwayWith (c.render ['x'])) := by
  have hwrite (s : Text) : (Source.write (m := StateM Disk) ⟨"in".toList⟩ "a.html".toList s).run
      halfway = (.ok (), halfwayWith s) := by
    rw [Source.write, makeParents, folders_halfway.1]
    rfl
  have hrefuse (s s' : Text) : (Source.write (m := StateM Disk) ⟨"in".toList⟩ "b.html".toList
      s').run (halfwayWith s) = (.error (.io .isFolder), halfwayWith s) := by
    rw [Source.write, makeParents, folders_halfway.2]
    rfl
  have hfirst : halfway.text ⟨"in/a.bb".toList⟩ = .ok ['x'] := Disk.decode_toUTF8 ['x']
  have hsecond (s : Text) : (halfwayWith s).text ⟨"in/b.bb".toList⟩ = .ok ['y'] :=
    Disk.decode_toUTF8 ['y']
  rw [folder, Disk.run_bind, run_scan_halfway]
  dsimp only
  rw [sources, Disk.run_bind, run_source hfirst rfl (hwrite _)]
  dsimp only
  rw [Disk.run_bind, sources, Disk.run_bind, source, Disk.run_bind, Disk.run_readText, hsecond]
  dsimp only
  have ht : Source.outputPath ⟨"in".toList⟩ ⟨"in/b.bb".toList⟩ = .ok "b.html".toList := rfl
  rw [ht]
  dsimp only
  rw [Disk.run_bind, hrefuse]
  rfl

theorem folder_contents_halfway : halfway.Sound ∧ ∃ c es d',
    (folder (m := StateM Disk) c ⟨"in".toList⟩ ⟨"in".toList⟩).run halfway =
      ((es, .error (.misplaced (.io .isFolder))), d') ∧
    d'.root.contentAt? = put halfway.root.contentAt? (["in".toList, "a.html".toList],
      (String.ofList (c.render ['x'])).toUTF8) := by
  have hrun := run_folder_halfway ⟨{}, .fragment⟩
  refine ⟨halfway_sound, _, _, _, hrun, ?_⟩
  obtain ⟨-, ⟨x, hscan, -, -⟩ | ⟨files, hscan, done, rest, hfiles, -, hcontent, hend⟩⟩ :=
    folder_contents halfway_sound hrun
  · cases run_scan_halfway.symm.trans hscan
  cases run_scan_halfway.symm.trans hscan
  obtain ⟨h, -⟩ | ⟨file, others, e, rfl, -, -⟩ := hend
  · cases h
  cases done with
  | nil =>
    -- the output of the first document is there, so it was converted
    have h := congrFun hcontent ["in".toList, "a.html".toList]
    cases h
  | cons g done =>
    obtain ⟨rfl, hdone⟩ := List.cons.inj hfiles
    obtain rfl : done = [] := by
      cases done with
      | nil => rfl
      | cons g done =>
        obtain ⟨-, h⟩ := List.cons.inj hdone
        simp at h
    have hout : output? ⟨{}, .fragment⟩ ⟨"in".toList⟩ ⟨"in".toList⟩ halfway ⟨"in/a.bb".toList⟩ =
        some (["in".toList, "a.html".toList],
          (String.ofList (render ⟨{}, .fragment⟩ ['x'])).toUTF8) := by
      have hread : halfway.text ⟨"in/a.bb".toList⟩ = .ok ['x'] := Disk.decode_toUTF8 ['x']
      rw [output?, hread]
      rfl
    rw [hcontent, List.filterMap_cons_some hout]
    rfl

end Conversion
end BBCode
