import BBCode.Config
import BBCode.Proofs.Config.Inert
import BBCode.Proofs.Disk.Run
import BBCode.Proofs.Toml.Document

/-!
# BBCode.Proofs.Config.RoundTrip

A configuration that is saved is loaded as it was. The text of a file says the configuration it was
printed from, whatever characters are in it; on loading only the path of the stylesheet changes,
and only if there is something to expand in it.

* `laid_print`: the file is laid out line by line.
* `parse_print`: the text of a configuration is read back.
* `loadFrom_saveTo`: so is the file, wherever it can be written.
-/

namespace BBCode

namespace Config

open Toml FileSystem

/-! ## What a file says -/

/-- The fields of the table for the options. -/
def optionFields (o : Options) : Fields :=
  [("allowed_sizes".toList, .array ((o.allowedSizes.map UInt16.toNat).map fun n : Nat => .integer n)),
   ("code_blocks".toList, .text o.codeBlocks.name),
   ("profile_url".toList, .text o.profileUrl),
   ("expand_widgets_by_default".toList, .boolean o.expandByDefault)]

/-- The fields in front of that table. -/
def topFields (c : Config) : Fields :=
  c.stylesheet.toList.map fun s => ("stylesheet".toList, .text s)

/-- The statements of a configuration file. -/
def statements (c : Config) : List Statement :=
  (topFields c).statements ++ .header ["render".toList] :: (optionFields c.render).statements

theorem isBareKey {key : String} (h : (key.toList ≠ [] && key.toList.all isKeyChar) = true) :
    IsBareKey key.toList := by
  rw [Bool.and_eq_true, decide_eq_true_eq] at h
  exact ⟨h.1, List.all_eq_true.1 h.2⟩

theorem laid_field {key : String} {w s : Text} {v : Value} {sts : List Statement}
    (hk : (key.toList ≠ [] && key.toList.all isKeyChar) = true) (hw : Writes w v) (h : Laid s sts) :
    Laid (field key w ++ s) (.field [key.toList] v :: sts) := by
  have hs : field key w ++ s = key.toList ++ ' ' :: '=' :: ' ' :: w ++ '\n' :: s := by
    simp [field]
  rw [hs]
  exact .line (line_field (isBareKey hk) hw) h

theorem laid_printOptions (o : Options) :
    Laid (printOptions o) (.header ["render".toList] :: (optionFields o).statements) := by
  have hsizes : ∀ n ∈ o.allowedSizes.map UInt16.toNat, n < 65536 := by
    intro n hn
    obtain ⟨u, -, rfl⟩ := List.mem_map.1 hn
    exact u.toNat_lt
  have hfields : Laid
      (field "allowed_sizes" (numbers (o.allowedSizes.map UInt16.toNat)) ++
        (field "code_blocks" (quote o.codeBlocks.name) ++
          (field "profile_url" (quote o.profileUrl) ++
            (field "expand_widgets_by_default" (boolean o.expandByDefault) ++ []))))
      (optionFields o).statements :=
    laid_field (by decide +kernel) (writes_numbers hsizes)
      (laid_field (by decide +kernel) (writes_quote _)
        (laid_field (by decide +kernel) (writes_quote _)
          (laid_field (by decide +kernel) (writes_boolean _) .nil)))
  have hprint : printOptions o = '[' :: "render".toList ++ [']'] ++ '\n' ::
      (field "allowed_sizes" (numbers (o.allowedSizes.map UInt16.toNat)) ++
        (field "code_blocks" (quote o.codeBlocks.name) ++
          (field "profile_url" (quote o.profileUrl) ++
            (field "expand_widgets_by_default" (boolean o.expandByDefault) ++ [])))) := by
    have hheader : "[render]\n".toList = '[' :: "render".toList ++ [']'] ++ ['\n'] := by
      decide +kernel
    unfold printOptions
    rw [hheader]
    simp only [List.append_assoc, List.cons_append, List.nil_append, List.append_nil]
  rw [hprint]
  exact .line (line_header (isBareKey (by decide +kernel))) hfields

/-- A configuration file is laid out line by line. -/
theorem laid_print (c : Config) : Laid c.print c.statements := by
  have hoptions := laid_printOptions c.render
  rw [print, statements, topFields]
  cases c.stylesheet with
  | none => exact hoptions
  | some s =>
    show Laid (field "stylesheet" (quote s) ++ '\n' :: printOptions c.render)
      (.field ["stylesheet".toList] (.text s) :: .header ["render".toList] ::
        (optionFields c.render).statements)
    exact laid_field (by decide +kernel) (writes_quote s) (.blank hoptions)

theorem nodup_optionFields (o : Options) : ((optionFields o).map Prod.fst).Nodup := by
  show ["allowed_sizes".toList, "code_blocks".toList, "profile_url".toList,
    "expand_widgets_by_default".toList].Nodup
  decide +kernel

theorem render_not_mem (c : Config) : "render".toList ∉ (topFields c).map Prod.fst := by
  rw [topFields]
  cases c.stylesheet with
  | none => exact List.not_mem_nil
  | some s =>
    show "render".toList ∉ ["stylesheet".toList]
    decide +kernel

theorem read_print (c : Config) : Toml.read c.print =
    .ok (topFields c ++ [("render".toList, .table .header (optionFields c.render))]) := by
  have hmark : c.print.head? ≠ some byteOrderMark := by
    rw [print]
    cases c.stylesheet with
    | none => exact fun h => absurd (Option.some.inj h) (by decide)
    | some s => exact fun h => absurd (Option.some.inj h) (by decide)
  have htop : build {} (c.statements.map .ok) =
      build ⟨topFields c, []⟩
        ((Statement.header ["render".toList] :: (optionFields c.render).statements).map .ok) := by
    rw [statements, topFields]
    cases c.stylesheet <;> rfl
  rw [read_of_laid (laid_print c) hmark, htop, build_table (render_not_mem c) (nodup_optionFields _)]

/-! ## What the fields mean -/

theorem sizeOf?_toNat (u : UInt16) : sizeOf? (.integer (u.toNat : Nat)) = some u := by
  have hu : u.toNat < 65536 := u.toNat_lt
  have hrange : (0 ≤ (u.toNat : Int) && (u.toNat : Int) < 65536) = true := by
    rw [Bool.and_eq_true, decide_eq_true_eq, decide_eq_true_eq]
    omega
  rw [sizeOf?, if_pos hrange, Int.toNat_natCast, UInt16.ofNat_toNat]

theorem sizes?_integers (us : List UInt16) :
    sizes? (.array ((us.map UInt16.toNat).map fun n : Nat => .integer n)) = some us := by
  rw [sizes?]
  induction us with
  | nil => rfl
  | cons u us ih => simp only [List.map_cons, List.mapM_cons, sizeOf?_toNat, ih]; rfl

theorem options?_optionFields (o : Options) :
    options? (.table .header (optionFields o)) = some o := by
  have hnodup := nodup_optionFields o
  have hsizes := Fields.lookup_of_mem hnodup List.mem_cons_self
  have hcode := Fields.lookup_of_mem hnodup (.tail _ List.mem_cons_self)
  have hprofile := Fields.lookup_of_mem hnodup (.tail _ (.tail _ List.mem_cons_self))
  have hexpand := Fields.lookup_of_mem hnodup (.tail _ (.tail _ (.tail _ List.mem_cons_self)))
  have hname : codeBlocks? (.text o.codeBlocks.name) = some o.codeBlocks :=
    CodeMatching.ofName?_name o.codeBlocks
  rw [options?, hsizes, hcode, hprofile, hexpand]
  simp only [optionsOf?, get?, sizes?_integers, hname, text?, boolean?]

theorem ofFields?_fields (c : Config) :
    ofFields? (topFields c ++ [("render".toList, .table .header (optionFields c.render))]) =
      some c := by
  have hoptions := options?_optionFields c.render
  have hstylesheet : List.lookup "stylesheet".toList
      (topFields c ++ [("render".toList, .table .header (optionFields c.render))]) =
        c.stylesheet.map .text := by
    have hne : "stylesheet".toList ∉ ["render".toList] := by decide +kernel
    rw [topFields]
    cases c.stylesheet with
    | none =>
      show List.lookup _ [("render".toList, Value.table .header (optionFields c.render))] = none
      exact Fields.lookup_eq_none hne
    | some s => exact List.lookup_cons_self
  rw [ofFields?, hstylesheet, Fields.lookup_last (render_not_mem c)]
  cases hs : c.stylesheet with
  | none =>
    simp only [get?, Option.map_none, hoptions]
    rw [← hs]
  | some s =>
    simp only [get?, Option.map_some, text?, hoptions]
    rw [← hs]

/-- What is printed for a configuration says that configuration. -/
theorem parse_print (c : Config) : parse c.print = .ok c := by
  rw [parse, read_print, Except.bind, ofFields?_fields]
  rfl

/-! ## What is expanded -/

/-- There is nothing to expand in the path of the stylesheet. -/
def IsFixed (c : Config) : Prop := ∀ s ∈ c.stylesheet, '$' ∉ s ∧ s.head? ≠ some '~'

theorem expand_eq_self_iff {e : Environment} {c : Config} :
    c.expand e = c ↔ ∀ s ∈ c.stylesheet, Expand.expandPath e s = s := by
  obtain ⟨stylesheet, render⟩ := c
  cases stylesheet <;> simp [expand]

theorem expand_eq_self (e : Environment) {c : Config} (h : c.IsFixed) : c.expand e = c :=
  expand_eq_self_iff.2 fun s hs =>
    (Expand.Inert.of_plain (h s hs).1 (h s hs).2).expandPath_eq_self e

/-! ## Files -/

variable {d d' : Disk} {p : Path} {e : Environment}

/-- A file that can be read is there and is loaded. -/
theorem run_loadFrom {s : Text} (h : d.text p = .ok s) :
    (loadFrom (m := StateM Disk) e p).run d =
      (match parse s with
        | .error fault => .error (.invalid p fault)
        | .ok c => .ok (some (c.expand e)), d) := by
  have hexists : (exists? (m := StateM Disk) p).run d = (true, d) := by
    show ((d.kind? p).isSome, d) = (true, d)
    rw [Disk.kind?_of_text h]
    rfl
  rw [loadFrom, Disk.run_bind, hexists]
  show (readText (m := StateM Disk) p >>= _).run d = _
  rw [Disk.run_bind, Disk.run_readText, h]
  dsimp only
  cases parse s <;> rfl

theorem saveTo_eq_ok {c : Config} (hd : d.Works)
    (h : (saveTo (m := StateM Disk) c p).run d = (.ok (), d')) : Disk.Written d p c.print d' := by
  obtain ⟨hg, hs⟩ := Disk.quiet_makeFoldersAt p.folders.tail d hd
  rw [saveTo, Disk.run_bind, makeParents] at h
  generalize (makeFoldersAt (m := StateM Disk) p.folders.tail).run d = x at h hg hs
  obtain ⟨r, d1⟩ := x
  cases r with
  | error e => cases h
  | ok => exact (Disk.writeText_eq_ok (hg.works hd) h).behind hg hs

/-- Whether a save is refused is a matter of the path and not of the configuration. -/
theorem saveTo_eq_error {c : Config} {cause : OsError}
    (h : (saveTo (m := StateM Disk) c p).run d = (.error cause, d')) (a : Config) :
    (saveTo (m := StateM Disk) a p).run d = (.error cause, d') := by
  rw [saveTo, Disk.run_bind] at h ⊢
  generalize (makeParents (m := StateM Disk) p).run d = x at h ⊢
  obtain ⟨r, d1⟩ := x
  cases r with
  | error e => exact h
  | ok =>
    have h : (writeText (m := StateM Disk) p c.print).run d1 = (.error cause, d') := h
    show (writeText (m := StateM Disk) p a.print).run d1 = _
    rw [Disk.run_writeText] at h ⊢
    cases hw : d1.writeFile p (String.ofList c.print).toUTF8 with
    | ok d2 =>
      rw [hw] at h
      cases h
    | error e =>
      rw [hw] at h
      rw [Disk.writeFile_eq_error hw]
      exact h

/-- A configuration that is saved is loaded as it was, in whatever environment, unless the path of
its stylesheet has something to expand. If it cannot be saved, then no configuration can be saved at
that path. -/
theorem loadFrom_saveTo (e : Environment) {c : Config} (hc : c.IsFixed) (p : Path) {d : Disk}
    (hd : d.Works) :
    (∃ d', (saveTo (m := StateM Disk) c p).run d = (.ok (), d') ∧
      (loadFrom (m := StateM Disk) e p).run d' = (.ok (some c), d')) ∨
    ∃ cause d', ∀ a : Config, (saveTo (m := StateM Disk) a p).run d = (.error cause, d') := by
  cases h : (saveTo (m := StateM Disk) c p).run d with
  | mk r d' =>
    cases r with
    | error cause => exact .inr ⟨cause, d', saveTo_eq_error h⟩
    | ok =>
      have htext := (saveTo_eq_ok hd h).text
      refine .inl ⟨d', rfl, ?_⟩
      rw [run_loadFrom htext, parse_print]
      simp only [expand_eq_self e hc]

/-- A configuration whose texts hold quotes of both kinds in long runs, backslashes, line ends and
control characters. -/
def quoted : Config where
  stylesheet := some "\nit's \"\"\"\"\\'''.css\r".toList
  render :=
    { allowedSizes := [0, 65535, 0]
      codeBlocks := .greedy
      profileUrl := "'\t\\'\x01\x7f\"".toList
      expandByDefault := true }

/-- On an empty disk it is saved, in a folder made for it, and loaded again. -/
theorem loadFrom_saveTo_quoted : quoted.IsFixed ∧ Disk.Works {} ∧
    ∃ d', (saveTo (m := StateM Disk) quoted ⟨"conf/config.toml".toList⟩).run {} = (.ok (), d') ∧
      (loadFrom (m := StateM Disk) {} ⟨"conf/config.toml".toList⟩).run d' =
        (.ok (some quoted), d') := by
  have hfixed : quoted.IsFixed := by
    intro s hs
    rw [← Option.some.inj hs]
    decide +kernel
  have hworks : Disk.Works {} := Folder.isFolder_nil _
  have hsaves : ((saveTo (m := StateM Disk) {} ⟨"conf/config.toml".toList⟩).run {}).1.isOk =
      true := by
    decide +kernel
  refine ⟨hfixed, hworks, ?_⟩
  rcases loadFrom_saveTo {} hfixed ⟨"conf/config.toml".toList⟩ hworks with h | ⟨cause, d', h⟩
  · exact h
  · rw [h {}] at hsaves
    cases hsaves

end Config

end BBCode
