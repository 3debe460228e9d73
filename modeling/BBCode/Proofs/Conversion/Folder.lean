import BBCode.Conversion
import BBCode.Proofs.Disk.Scan

/-!
# BBCode.Proofs.Conversion.Folder

What is on the disk after a folder was converted. Outputs are never sources, so every source is
read as it was at the start; but two sources can have one place for their outputs, and then the
later one of the scan is found there.

Main statements: `folder_outputs`, the output of every source with a place of its own is what the
source alone is converted to; `Found.outputPath_eq_iff` says which sources have one place.
-/

namespace BBCode

open FileSystem

namespace Conversion

variable {c : Conversion} {input output file : Path} {files fs gs : List Path} {d d' : Disk}
  {es : List Event} {s t n : Text} {pre : List Text}

/-- A source found below the input folder, by the folders it lies in and what it is called. -/
structure Found (d : Disk) (input : Path) (pre : List Text) (n : Text) : Prop where
  given : input.text ≠ []
  opens : Disk.Opens d.root (d.start input) (Path.segments input.text)
  names : ∀ m ∈ pre ++ [n], Path.IsName m
  source : Path.isSourceName n = true
  inside : d.root.IsFolder (d.place input ++ pre)

theorem scan_eq_ok (h : (Source.scan (m := StateM Disk) input).run d = (.ok files, d')) :
    d' = d ∧ d.kind? input = some .folder ∧
      files = (d.found pathLimit input).mergeSort fun p q => !q.before p := by
  rw [Disk.run_scan] at h
  split at h
  · rename_i hk
    cases h
    exact ⟨rfl, hk, rfl⟩
  · cases h

theorem found_of_mem (hd : d.Sound)
    (h : (Source.scan (m := StateM Disk) input).run d = (.ok files, d')) (hf : file ∈ files) :
    ∃ pre n, file = input.below (pre ++ [n]) ∧ Found d input pre n := by
  obtain ⟨-, hk, rfl⟩ := scan_eq_ok h
  obtain ⟨pre, n, rfl, hmet⟩ := Disk.met_of_mem_found hd.names hk (List.mem_mergeSort.1 hf)
  obtain ⟨g, hg⟩ := Disk.kind?_eq_folder.1 hk
  obtain ⟨hgiven, hopens⟩ := Disk.opens_of_entry hg
  have hnames := hmet.isName hd.names
  obtain ⟨k, hfolder⟩ := Disk.kind?_eq_folder.1 hmet.folder
  have hinside := Disk.entryAt?_of_entry hfolder
  rw [Disk.place_below hgiven fun m hm => hnames m (List.mem_append_left _ hm)] at hinside
  exact ⟨pre, n, rfl, hgiven, hopens, hnames, hmet.source, k, hinside⟩

namespace Found

variable {m : Text}

theorem segments (h : Found d input pre n) :
    Path.segments (input.below (pre ++ [n])).text = Path.segments input.text ++ pre ++ [n] := by
  rw [Path.segments_below h.names, List.append_assoc]

theorem start (h : Found d input pre n) (d' : Disk) :
    d'.start (input.below (pre ++ [n])) = d'.start input := Disk.start_below h.given

theorem place (h : Found d input pre n) :
    d.place (input.below (pre ++ [n])) = d.place input ++ pre ++ [n] := by
  rw [Disk.place_below h.given h.names, List.append_assoc]

/-- The names of the output below the output folder. -/
theorem outputNames (h : Found d input pre n) :
    ∀ m ∈ pre ++ [Path.replaceExtension "html".toList n], Path.IsName m := by
  intro m hm
  rcases List.mem_append.1 hm with hm | hm
  · exact h.names m (List.mem_append_left _ hm)
  · rw [List.mem_singleton.1 hm]
    exact (h.names n (by simp)).replaceExtension h.source

theorem outputPath (h : Found d input pre n) :
    Source.outputPath input (input.below (pre ++ [n])) =
      .ok (Text.join ['/'] (pre ++ [Path.replaceExtension "html".toList n])) := by
  rw [Source.outputPath, Path.outputPath?_below h.given h.names]

theorem place_output (h : Found d input pre n) (d' : Disk) :
    d'.place (output.resolve (Text.join ['/'] (pre ++ [Path.replaceExtension "html".toList n]))) =
      d'.place output ++ pre ++ [Path.replaceExtension "html".toList n] := by
  rw [Disk.place_resolve, Path.segments_join h.outputNames, Disk.walk_names h.outputNames,
    List.append_assoc]

/-- No output is where a source is. -/
theorem place_ne {pre' : List Text} {n' : Text} (h : Found d input pre n)
    (h' : Found d input pre' n') :
    d.place (input.below (pre ++ [n])) ≠ d.place
      (output.resolve (Text.join ['/'] (pre' ++ [Path.replaceExtension "html".toList n']))) := by
  intro heq
  rw [h.place, h'.place_output] at heq
  obtain ⟨-, hn⟩ := List.append_inj' heq rfl
  have := Path.isSourceName_replaceExtension h'.source
  rw [← List.singleton_inj.1 hn, h.source] at this
  cases this

/-- Different outputs are in different places. -/
theorem place_output_inj {pre' : List Text} {n' : Text} (h : Found d input pre n)
    (h' : Found d input pre' n')
    (heq : d.place (output.resolve (Text.join ['/']
        (pre ++ [Path.replaceExtension "html".toList n]))) =
      d.place (output.resolve (Text.join ['/']
        (pre' ++ [Path.replaceExtension "html".toList n'])))) :
    pre ++ [Path.replaceExtension "html".toList n] =
      pre' ++ [Path.replaceExtension "html".toList n'] := by
  rw [h.place_output, h'.place_output, List.append_assoc, List.append_assoc] at heq
  exact List.append_cancel_left heq

/-- Two sources have one place for their outputs if they lie in one folder and differ in the
extension alone. -/
theorem outputPath_eq_iff {pre' : List Text} {n' : Text} (h : Found d input pre n)
    (h' : Found d input pre' n') :
    Source.outputPath input (input.below (pre ++ [n])) =
        Source.outputPath input (input.below (pre' ++ [n'])) ↔
      pre = pre' ∧ (Path.splitName? n).map (·.1) = (Path.splitName? n').map (·.1) := by
  obtain ⟨stem, ext, hs⟩ := Path.splitName?_of_isSourceName h.source
  obtain ⟨stem', ext', hs'⟩ := Path.splitName?_of_isSourceName h'.source
  have hn := h.outputNames
  have hn' := h'.outputNames
  rw [h.outputPath, h'.outputPath, hs, hs']
  rw [Path.replaceExtension_stem _ hs] at hn ⊢
  rw [Path.replaceExtension_stem _ hs'] at hn' ⊢
  constructor
  · intro heq
    have hj := congrArg Path.segments (Except.ok.inj heq)
    rw [Path.segments_join hn, Path.segments_join hn'] at hj
    obtain ⟨hpre, hlast⟩ := List.append_inj' hj rfl
    exact ⟨hpre, congrArg some (List.append_cancel_right (List.singleton_inj.1 hlast))⟩
  · rintro ⟨rfl, hst⟩
    cases hst
    rfl

/-- A source that is read later in a conversion could be read at its start. -/
theorem leads (h : Found d input pre n) (hg : Disk.Grows d d')
    (hl : d'.Leads (input.below (pre ++ [n]))) : d.Leads (input.below (pre ++ [n])) := by
  refine hl.of_isFolder (hg.start _) h.segments ?_ (fun m hm => h.names m (by simp [hm])) ?_
  · rw [h.start]
    exact h.opens
  · rw [h.start]
    exact h.inside

end Found

/-- How the conversion of a source fails, and what it leaves. -/
inductive Fails (c : Conversion) (input output file : Path) (d : Disk) :
    ConversionError → Disk → Prop
  | unreadable {cause : OsError} (read : d.text file = .error cause) :
      Fails c input output file d (.unreadable file cause) d
  | misplaced {s : Text} {e : SourceError} (read : d.text file = .ok s)
      (target : Source.outputPath input file = .error e) :
      Fails c input output file d (.misplaced e) d
  | unwritable {s t : Text} {e : SourceError} {d' : Disk} (read : d.text file = .ok s)
      (target : Source.outputPath input file = .ok t)
      (write : (Source.write (m := StateM Disk) output t (c.render s)).run d = (.error e, d')) :
      Fails c input output file d (.misplaced e) d'

theorem source_cases {r : Except ConversionError Unit} (hd : d.Works)
    (h : (c.source (m := StateM Disk) input output file).run d = ((es, r), d')) :
    (r = .ok () ∧ ∃ s t, d.text file = .ok s ∧ Source.outputPath input file = .ok t ∧
      Disk.Written d (output.resolve t) (c.render s) d') ∨
    ∃ e, r = .error e ∧ Fails c input output file d e d' := by
  rw [source, Disk.run_bind, Disk.run_readText] at h
  cases hs : d.text file with
  | error e =>
    rw [hs] at h
    cases h
    exact .inr ⟨_, rfl, .unreadable hs⟩
  | ok s =>
    rw [hs] at h
    dsimp only at h
    cases ht : Source.outputPath input file with
    | error e =>
      rw [ht] at h
      cases h
      exact .inr ⟨_, rfl, .misplaced hs ht⟩
    | ok t =>
      rw [ht] at h
      dsimp only at h
      rw [Disk.run_bind] at h
      generalize hw : (Source.write (m := StateM Disk) output t (c.render s)).run d = x at h
      obtain ⟨w, d1⟩ := x
      cases w with
      | error e =>
        cases h
        exact .inr ⟨_, rfl, .unwritable hs ht hw⟩
      | ok =>
        cases h
        exact .inl ⟨rfl, s, t, rfl, rfl, Disk.write_eq_ok hd hw⟩

/-- Sources are converted one after the other without a failure. -/
inductive Converts (c : Conversion) (input output : Path) : List Path → Disk → Disk → Prop
  | nil {d : Disk} : Converts c input output [] d d
  | cons {file : Path} {files : List Path} {d d1 d' : Disk} {s t : Text}
      (read : d.text file = .ok s) (target : Source.outputPath input file = .ok t)
      (written : Disk.Written d (output.resolve t) (c.render s) d1)
      (others : Converts c input output files d1 d') : Converts c input output (file :: files) d d'

/-- Sources are converted up to the first failure, if there is one. -/
theorem sources_cases {r : Except ConversionError Unit} (hd : d.Works)
    (h : (c.sources (m := StateM Disk) input output files).run d = ((es, r), d')) :
    (r = .ok () ∧ Converts c input output files d d') ∨
    ∃ done file others e d1, files = done ++ file :: others ∧ r = .error e ∧
      Converts c input output done d d1 ∧ Fails c input output file d1 e d' := by
  induction files generalizing d es with
  | nil =>
    cases h
    exact .inl ⟨rfl, .nil⟩
  | cons file files ih =>
    rw [sources, Disk.run_bind] at h
    generalize hx : (c.source (m := StateM Disk) input output file).run d = x at h
    obtain ⟨⟨es1, r1⟩, d1⟩ := x
    obtain ⟨rfl, s, t, hs, ht, hw⟩ | ⟨e, rfl, hfail⟩ := source_cases hd hx
    · dsimp only at h
      rw [Disk.run_bind] at h
      generalize hy : (c.sources (m := StateM Disk) input output files).run d1 = y at h
      obtain ⟨⟨es2, r2⟩, d2⟩ := y
      cases h
      rcases ih (hw.grows.works hd) hy with ⟨rfl, hrun⟩ |
        ⟨done, file', others, e, d2, rfl, rfl, hrun, hfail⟩
      · exact .inl ⟨rfl, .cons hs ht hw hrun⟩
      · exact .inr ⟨file :: done, file', others, e, d2, rfl, rfl, .cons hs ht hw hrun, hfail⟩
    · cases h
      exact .inr ⟨[], file, files, e, d, rfl, rfl, .nil, hfail⟩

namespace Converts

theorem grows (h : Converts c input output files d d') : Disk.Grows d d' := by
  induction h with
  | nil => exact .refl _
  | cons _ _ hw _ ih => exact hw.grows.trans ih

/-- A conversion changes what is at the places of its outputs. -/
theorem frame (h : Converts c input output files d d') {l : List Text}
    (hl : ∀ g ∈ files, ∀ t, Source.outputPath input g = .ok t → l ≠ d.place (output.resolve t)) :
    d'.root.contentAt? l = d.root.contentAt? l := by
  induction h with
  | nil => rfl
  | @cons file files d d1 d' s t _ ht hw _ ih =>
    rw [ih, hw.files, if_neg (hl file (by simp) t ht)]
    intro g hg u hu
    rw [hw.grows.place]
    exact hl g (by simp [hg]) u hu

theorem split (h : Converts c input output (fs ++ file :: gs) d d') :
    ∃ s t d1 d2, Converts c input output fs d d1 ∧ d1.text file = .ok s ∧
      Source.outputPath input file = .ok t ∧
      Disk.Written d1 (output.resolve t) (c.render s) d2 ∧
      Converts c input output gs d2 d' := by
  induction fs generalizing d with
  | nil =>
    cases h with
    | cons hs ht hw ho => exact ⟨_, _, _, _, .nil, hs, ht, hw, ho⟩
  | cons f fs ih =>
    cases h with
    | cons hs ht hw ho =>
      obtain ⟨s, t, d1, d2, h1, h2⟩ := ih ho
      exact ⟨s, t, d1, d2, .cons hs ht hw h1, h2⟩

end Converts

/-- What becomes of the conversion of a folder: the scan fails, every source is converted, or one of
them fails after those before it. -/
theorem folder_cases {r : Except ConversionError Unit} (hd : d.Works)
    (h : (c.folder (m := StateM Disk) input output).run d = ((es, r), d')) :
    (∃ x, (Source.scan (m := StateM Disk) input).run d = (.error x, d) ∧
      r = .error (.misplaced x) ∧ d' = d) ∨
    ∃ files, (Source.scan (m := StateM Disk) input).run d = (.ok files, d) ∧
      ((r = .ok () ∧ Converts c input output files d d') ∨
        ∃ done file others e d1, files = done ++ file :: others ∧ r = .error e ∧
          Converts c input output done d d1 ∧ Fails c input output file d1 e d') := by
  rw [folder, Disk.run_bind] at h
  have hdisk : ((Source.scan (m := StateM Disk) input).run d).2 = d := by rw [Disk.run_scan]
  generalize hx : (Source.scan (m := StateM Disk) input).run d = x at h hdisk
  obtain ⟨x, d1⟩ := x
  obtain rfl : d1 = d := hdisk
  cases x with
  | error x =>
    cases h
    exact .inl ⟨x, rfl, rfl, rfl⟩
  | ok files =>
    refine .inr ⟨files, rfl, ?_⟩
    cases files with
    | nil =>
      cases h
      exact .inl ⟨rfl, .nil⟩
    | cons file files => exact sources_cases hd h

theorem converts_of_folder (hd : d.Works)
    (h : (c.folder (m := StateM Disk) input output).run d = ((es, .ok ()), d')) :
    ∃ files, (Source.scan (m := StateM Disk) input).run d = (.ok files, d) ∧
      Converts c input output files d d' := by
  obtain ⟨_, -, he, -⟩ | ⟨files, hscan, ⟨-, hrun⟩ | ⟨_, _, _, _, _, -, he, -⟩⟩ := folder_cases hd h
  · cases he
  · exact ⟨files, hscan, hrun⟩
  · cases he

/-- A document found by a scan is never taken for the input of the program. -/
theorem run_document (stdin : StateM Disk (Except OsError Text)) (h : Found d input pre n)
    (hs : d.text (input.below (pre ++ [n])) = .ok s) :
    (c.document stdin (input.below (pre ++ [n])) none).run d =
      ((c.remarks s, .ok (c.render s)), d) := by
  have hsame : (input.below (pre ++ [n])).same ⟨['-']⟩ = false := by
    rw [Path.same, Path.components_below h.given h.names]
    have hn : n ≠ ['-'] := by
      rintro rfl
      exact absurd h.source (by decide)
    have hd : Path.components ⟨['-']⟩ = [] ++ [.name ['-']] := by decide
    rw [decide_eq_false_iff_not, hd, List.map_append, ← List.append_assoc]
    intro heq
    obtain ⟨-, hl⟩ := List.append_inj' heq rfl
    simp at hl
    exact hn hl
  rw [document, hsame]
  simp only [Bool.false_eq_true, if_false]
  rw [Disk.run_bind, Disk.run_readText, hs]
  rfl

/-- A source that is read after others were converted was the same before. -/
theorem Converts.text_before (h : Converts c input output files d d') (hf : Found d input pre n)
    (hfiles : ∀ g ∈ files, ∃ pre n, g = input.below (pre ++ [n]) ∧ Found d input pre n)
    (hs : d'.text (input.below (pre ++ [n])) = .ok s) :
    d.text (input.below (pre ++ [n])) = .ok s := by
  obtain ⟨hl, content, hc, hs⟩ := Disk.text_eq_ok.1 hs
  refine Disk.text_eq_ok.2 ⟨hf.leads h.grows hl, content, ?_, hs⟩
  rw [h.grows.place] at hc
  rw [← hc, h.frame]
  intro g hg u hu
  obtain ⟨pre', n', rfl, hg'⟩ := hfiles g hg
  cases hg'.outputPath.symm.trans hu
  exact hf.place_ne hg'

/-- A text stays where it is while nothing else is written there. -/
theorem Converts.text_after {p : Path} (h : Converts c input output files d d')
    (hp : ∀ g ∈ files, ∀ t, Source.outputPath input g = .ok t →
      d.place p ≠ d.place (output.resolve t)) (hs : d.text p = .ok s) : d'.text p = .ok s := by
  obtain ⟨hl, content, hc, hs⟩ := Disk.text_eq_ok.1 hs
  exact Disk.text_eq_ok.2 ⟨h.grows.leads hl, content, by rw [h.grows.place, h.frame hp, hc], hs⟩

theorem run_source {d1 : Disk} (hs : d.text file = .ok s)
    (ht : Source.outputPath input file = .ok t)
    (hw : (Source.write (m := StateM Disk) output t (c.render s)).run d = (.ok (), d1)) :
    (c.source (m := StateM Disk) input output file).run d =
      ((c.remarks s ++ [.converted file.text t], .ok ()), d1) := by
  rw [source, Disk.run_bind, Disk.run_readText, hs]
  dsimp only
  rw [ht]
  dsimp only
  rw [Disk.run_bind, hw]
  rfl

/-- Two documents in one folder, called the same but for their extensions. -/
def twins : Disk where
  root := .folder "in".toList
    (.file "a.bb".toList (String.ofList ['x']).toUTF8
      (.file "a.bbcode".toList (String.ofList ['y']).toUTF8 .empty)) .empty

/-- The twins with the output of one of them. -/
def twinsWith (s : Text) : Disk where
  root := .folder "in".toList
    (.file "a.bb".toList (String.ofList ['x']).toUTF8
      (.file "a.bbcode".toList (String.ofList ['y']).toUTF8 .empty))
    (.folder "out".toList (.file "a.html".toList (String.ofList s).toUTF8 .empty) .empty)

theorem twins_sound : twins.Sound := by
  refine ⟨?_, Folder.isFolder_nil _⟩
  simp only [twins, Folder.Sound, Folder.find?, and_true, true_and]
  decide

theorem run_scan_twins : (Source.scan (m := StateM Disk) ⟨"in".toList⟩).run twins =
    (.ok [⟨"in/a.bb".toList⟩, ⟨"in/a.bbcode".toList⟩], twins) := by
  have hkind : twins.kind? ⟨"in".toList⟩ = some .folder := rfl
  have hfound : twins.found pathLimit ⟨"in".toList⟩ =
      [⟨"in/a.bb".toList⟩, ⟨"in/a.bbcode".toList⟩] := rfl
  exact Disk.run_scan_sorted hkind hfound (by decide)

theorem text_twins : twins.text ⟨"in/a.bb".toList⟩ = .ok ['x'] ∧
    twins.text ⟨"in/a.bbcode".toList⟩ = .ok ['y'] :=
  ⟨Disk.decode_toUTF8 ['x'], Disk.decode_toUTF8 ['y']⟩

theorem text_twinsWith (s : Text) : (twinsWith s).text ⟨"in/a.bbcode".toList⟩ = .ok ['y'] :=
  Disk.decode_toUTF8 ['y']

theorem outputPath_twins :
    Source.outputPath ⟨"in".toList⟩ ⟨"in/a.bb".toList⟩ = .ok "a.html".toList ∧
      Source.outputPath ⟨"in".toList⟩ ⟨"in/a.bbcode".toList⟩ = .ok "a.html".toList := ⟨rfl, rfl⟩

theorem folders_twins : (Path.resolve ⟨"out".toList⟩ "a.html".toList).folders =
    [⟨"out/a.html".toList⟩, ⟨"out".toList⟩] :=
  Path.folders_pair (by decide) (by decide) (by decide) (by decide)

theorem run_folder_twins (c : Conversion) :
    (c.folder (m := StateM Disk) ⟨"in".toList⟩ ⟨"out".toList⟩).run twins =
      ((c.remarks ['x'] ++ [.converted "in/a.bb".toList "a.html".toList] ++
        (c.remarks ['y'] ++ [.converted "in/a.bbcode".toList "a.html".toList] ++ []), .ok ()),
        twinsWith (c.render ['y'])) := by
  have hwrite (s : Text) : (Source.write (m := StateM Disk) ⟨"out".toList⟩ "a.html".toList s).run
      twins = (.ok (), twinsWith s) := by
    rw [Source.write, makeParents, folders_twins]
    rfl
  have hrewrite (s s' : Text) : (Source.write (m := StateM Disk) ⟨"out".toList⟩ "a.html".toList
      s').run (twinsWith s) = (.ok (), twinsWith s') := by
    rw [Source.write, makeParents, folders_twins]
    rfl
  rw [folder, Disk.run_bind, run_scan_twins]
  dsimp only
  rw [sources, Disk.run_bind, run_source text_twins.1 outputPath_twins.1 (hwrite _)]
  dsimp only
  rw [Disk.run_bind, sources, Disk.run_bind,
    run_source (text_twinsWith _) outputPath_twins.2 (hrewrite _ _)]
  rfl

/-- After a folder was converted, the output of each of its sources is what the source alone is
converted to, as it was before; only where a later source has the same place for its output, that
is of the later one. -/
theorem folder_outputs (hd : d.Sound)
    (h : (c.folder (m := StateM Disk) input output).run d = ((es, .ok ()), d')) :
    ∃ files, (Source.scan (m := StateM Disk) input).run d = (.ok files, d) ∧
      ∀ fs file gs, files = fs ++ file :: gs → ∃ s t,
        (readText (m := StateM Disk) file).run d = (.ok s, d) ∧
        (∀ stdin, (c.document (m := StateM Disk) stdin file none).run d =
          ((c.remarks s, .ok (c.render s)), d)) ∧
        Source.outputPath input file = .ok t ∧
        ((∀ g ∈ gs, Source.outputPath input g ≠ .ok t) →
          (readText (m := StateM Disk) (output.resolve t)).run d' = (.ok (c.render s), d')) := by
  obtain ⟨files, hscan, hrun⟩ := converts_of_folder hd.works h
  refine ⟨files, hscan, ?_⟩
  rintro fs file gs rfl
  obtain ⟨s, t, d1, d2, hbefore, hs, ht, hw, hafter⟩ := hrun.split
  have hfound (g : Path) (hg : g ∈ fs ++ file :: gs) := found_of_mem hd hscan hg
  obtain ⟨pre, n, rfl, hf⟩ := hfound file (by simp)
  have hread : d.text (input.below (pre ++ [n])) = .ok s :=
    hbefore.text_before hf (fun g hg => hfound g (by simp [hg])) hs
  refine ⟨s, t, by rw [Disk.run_readText, hread], fun stdin => run_document stdin hf hread, ht, ?_⟩
  intro hlast
  have hkeep : d'.text (output.resolve t) = .ok (c.render s) := by
    refine hafter.text_after (fun g hg u hu heq => hlast g hg ?_) hw.text
    obtain ⟨pre', n', rfl, hg'⟩ := hfound g (by simp [hg])
    have hgrow := hbefore.grows.trans hw.grows
    cases hf.outputPath.symm.trans ht
    cases hg'.outputPath.symm.trans hu
    rw [hgrow.place, hgrow.place] at heq
    rw [hu, hf.place_output_inj hg' heq]
  rw [Disk.run_readText, hkeep]

theorem folder_outputs_twins : twins.Sound ∧
    ∃ c es d', (folder (m := StateM Disk) c ⟨"in".toList⟩ ⟨"out".toList⟩).run twins =
        ((es, .ok ()), d') ∧
      (readText (m := StateM Disk) ⟨"out/a.html".toList⟩).run d' = (.ok (c.render ['y']), d') := by
  have hrun := run_folder_twins ⟨{}, .fragment⟩
  refine ⟨twins_sound, _, _, _, hrun, ?_⟩
  obtain ⟨files, hscan, hout⟩ := folder_outputs twins_sound hrun
  cases run_scan_twins.symm.trans hscan
  obtain ⟨s, t, hs, -, ht, hlast⟩ := hout [⟨"in/a.bb".toList⟩] ⟨"in/a.bbcode".toList⟩ [] rfl
  rw [Disk.run_readText, text_twins.2] at hs
  cases hs
  cases outputPath_twins.2.symm.trans ht
  exact hlast (by simp)

/-- The output of the first twin is gone after the conversion, which reports no failure. -/
theorem twins_overwritten : ¬ ∀ (c : Conversion) (input output : Path) (d d' : Disk)
    (es : List Event) (files : List Path), d.Sound →
    (c.folder (m := StateM Disk) input output).run d = ((es, .ok ()), d') →
    (Source.scan (m := StateM Disk) input).run d = (.ok files, d) →
    ∀ file ∈ files, ∃ s t, (readText (m := StateM Disk) file).run d = (.ok s, d) ∧
      Source.outputPath input file = .ok t ∧
      (readText (m := StateM Disk) (output.resolve t)).run d' = (.ok (c.render s), d') := by
  intro h
  obtain ⟨s, t, hs, ht, hout⟩ := h ⟨{}, .fragment⟩ _ _ _ _ _ _ twins_sound (run_folder_twins _)
    run_scan_twins ⟨"in/a.bb".toList⟩ (by simp)
  rw [Disk.run_readText, text_twins.1] at hs
  cases hs
  cases outputPath_twins.1.symm.trans ht
  have hshown : (twinsWith (render ⟨{}, .fragment⟩ ['y'])).text
      (Path.resolve ⟨"out".toList⟩ "a.html".toList) = .ok (render ⟨{}, .fragment⟩ ['y']) :=
    Disk.decode_toUTF8 _
  rw [Disk.run_readText, hshown] at hout
  have hsame : render ⟨{}, .fragment⟩ ['y'] = render ⟨{}, .fragment⟩ ['x'] :=
    Except.ok.inj (congrArg Prod.fst hout)
  exact absurd hsame (by decide +kernel)

end Conversion
end BBCode
