import BBCode.Proofs.Disk.Walk
import BBCode.Source

/-!
# BBCode.Proofs.Disk.Run

Runs of the file operations on a disk. Making folders, whether it succeeds or not, leaves every
content; writing a document that succeeds puts its text at one place.

Main statements: `text_eq_ok`, `quiet_makeFoldersAt` and `write_eq_ok`.
-/

namespace BBCode

open FileSystem

namespace Disk

variable {α β : Type} {d d' : Disk} {p : Path} {s t : Text}

theorem run_bind (x : StateM Disk α) (f : α → StateM Disk β) (d : Disk) :
    (x >>= f).run d = (f (x.run d).1).run (x.run d).2 := rfl

/-- The text of the document at a path. -/
def text (d : Disk) (p : Path) : Except OsError Text := (d.readFile p).bind decode

theorem run_readText (p : Path) (d : Disk) :
    (readText (m := StateM Disk) p).run d = (d.text p, d) := by
  have hr : (FileSystem.readFile (m := StateM Disk) p).run d = (d.readFile p, d) := rfl
  rw [readText, run_bind, text, hr]
  cases d.readFile p <;> rfl

theorem text_eq_ok : d.text p = .ok s ↔
    d.Leads p ∧ ∃ c, d.root.contentAt? (d.place p) = some c ∧ decode c = .ok s := by
  unfold text
  constructor
  · intro h
    cases hr : d.readFile p with
    | error e =>
      rw [hr] at h
      cases h
    | ok c =>
      rw [hr] at h
      obtain ⟨hl, hc⟩ := readFile_eq_ok.1 hr
      exact ⟨hl, c, hc, h⟩
  · rintro ⟨hl, c, hc, hs⟩
    rw [readFile_eq_ok.2 ⟨hl, hc⟩]
    exact hs

theorem kind?_of_text (h : d.text p = .ok s) : d.kind? p = some .file := by
  unfold text readFile at h
  rw [kind?]
  cases he : d.entry p with
  | error e =>
    rw [he] at h
    cases h
  | ok x =>
    rw [he] at h
    cases x with
    | file c => rfl
    | folder f => cases h

theorem fromUTF8?_toUTF8 (s : String) : String.fromUTF8? s.toUTF8 = some s := by
  unfold String.fromUTF8?
  rw [String.toUTF8_eq_toByteArray, dif_pos s.isValidUTF8]
  rfl

theorem decode_toUTF8 (s : Text) : decode (String.ofList s).toUTF8 = .ok s := by
  rw [decode, fromUTF8?_toUTF8]
  simp

/-- Whatever comes of it, no folder goes and no content changes. -/
def Quiet (x : StateM Disk α) : Prop :=
  ∀ d : Disk, d.Works → Grows d (x.run d).2 ∧ SameFiles d (x.run d).2

theorem quiet_pure (a : α) : Quiet (pure a) := fun d _ => ⟨.refl d, fun _ => rfl⟩

theorem Quiet.bind {x : StateM Disk α} {f : α → StateM Disk β} (hx : Quiet x)
    (hf : ∀ a, Quiet (f a)) : Quiet (x >>= f) := by
  intro d hd
  obtain ⟨h1, h2⟩ := hx d hd
  obtain ⟨h3, h4⟩ := hf (x.run d).1 (x.run d).2 (h1.works hd)
  exact ⟨h1.trans h3, fun l => (h4 l).trans (h2 l)⟩

theorem run_change (f : Disk → Except OsError Disk) (d : Disk) :
    (change f).run d = match f d with
      | .ok d' => (.ok (), d')
      | .error e => (.error e, d) := rfl

theorem run_writeText (p : Path) (s : Text) (d : Disk) :
    (writeText (m := StateM Disk) p s).run d = match d.writeFile p (String.ofList s).toUTF8 with
      | .ok d' => (.ok (), d')
      | .error e => (.error e, d) := rfl

theorem quiet_makeFolder (p : Path) : Quiet (FileSystem.makeFolder p) := by
  intro d hd
  show Grows d ((change (·.makeFolder p)).run d).2 ∧ SameFiles d ((change (·.makeFolder p)).run d).2
  rw [run_change]
  split
  · rename_i d' h
    exact makeFolder_eq_ok hd h
  · exact ⟨.refl d, fun _ => rfl⟩

theorem quiet_isFolder? (p : Path) : Quiet (isFolder? p) := fun d _ => ⟨.refl d, fun _ => rfl⟩

/-- What making one folder and looking for one keep, making folders keeps. -/
theorem makeFoldersAt_induction {P : ∀ {α : Type}, StateM Disk α → Prop} {ps : List Path}
    (hpure : ∀ {α : Type} (a : α), P (pure a : StateM Disk α))
    (hbind : ∀ {α β : Type} {x : StateM Disk α} {f : α → StateM Disk β},
      P x → (∀ a, P (f a)) → P (x >>= f))
    (hlook : ∀ p, P (isFolder? (m := StateM Disk) p))
    (hmake : ∀ p ∈ ps, P (FileSystem.makeFolder (m := StateM Disk) p)) :
    P (makeFoldersAt (m := StateM Disk) ps) := by
  induction ps with
  | nil => exact hpure _
  | cons p above ih =>
    obtain ⟨hp, habove⟩ := List.forall_mem_cons.1 hmake
    -- What is not a folder after a refusal is the refusal itself.
    have hcheck (e : OsError) : P (do
        if ← isFolder? (m := StateM Disk) p then return Except.ok () else return .error e) := by
      refine hbind (hlook p) fun b => ?_
      cases b <;> exact hpure _
    refine hbind hp fun r => ?_
    cases r with
    | ok => exact hpure _
    | error e =>
      cases e with
      | notFound =>
        refine hbind (ih habove) fun r => ?_
        cases r with
        | error e => exact hpure _
        | ok =>
          refine hbind hp fun r => ?_
          cases r with
          | ok => exact hpure _
          | error e => exact hcheck e
      | _ => exact hcheck _

theorem quiet_makeFoldersAt (ps : List Path) : Quiet (makeFoldersAt ps) :=
  makeFoldersAt_induction quiet_pure Quiet.bind quiet_isFolder? fun p _ => quiet_makeFolder p

/-- What a disk has become with the text of one document written to a path. -/
structure Written (d : Disk) (p : Path) (s : Text) (d' : Disk) : Prop where
  grows : Grows d d'
  leads : d'.Leads p
  files : ∀ l, d'.root.contentAt? l =
    if l = d.place p then some (String.ofList s).toUTF8 else d.root.contentAt? l

theorem Written.text (h : Written d p s d') : d'.text p = .ok s := by
  refine text_eq_ok.2 ⟨h.leads, _, ?_, decode_toUTF8 s⟩
  rw [h.grows.place, h.files, if_pos rfl]

theorem writeText_eq_ok (hd : d.Works)
    (h : (writeText (m := StateM Disk) p s).run d = (.ok (), d')) : Written d p s d' := by
  rw [run_writeText] at h
  cases hw : d.writeFile p (String.ofList s).toUTF8 with
  | error e =>
    rw [hw] at h
    cases h
  | ok d2 =>
    rw [hw] at h
    cases h
    obtain ⟨hl, hg, hf⟩ := writeFile_eq_ok hd hw
    exact ⟨hg, hg.leads hl, hf⟩

/-- Folders that were made before do not matter to what is written. -/
theorem Written.behind {d1 : Disk} (hg : Grows d d1) (hs : SameFiles d d1)
    (h : Written d1 p s d') : Written d p s d' where
  grows := hg.trans h.grows
  leads := h.leads
  files l := by rw [h.files, hg.place, hs]

/-- Writing a document makes the folders above it and then writes the file, if nothing is
refused. -/
theorem run_write {root : Path} {r : Except SourceError Unit}
    (h : (Source.write (m := StateM Disk) root t s).run d = (r, d')) :
    ∃ x d1, (makeFoldersAt (m := StateM Disk) (root.resolve t).folders.tail).run d = (x, d1) ∧
      ((r ≠ .ok () ∧ d' = d1) ∨
        (r = .ok () ∧
          (writeText (m := StateM Disk) (root.resolve t) s).run d1 = (.ok (), d'))) := by
  rw [Source.write, run_bind, makeParents] at h
  generalize hx : (makeFoldersAt (m := StateM Disk) (root.resolve t).folders.tail).run d = x at h
  obtain ⟨x, d1⟩ := x
  refine ⟨x, d1, rfl, ?_⟩
  cases x with
  | error e =>
    cases h
    exact .inl ⟨nofun, rfl⟩
  | ok =>
    dsimp only at h
    rw [run_bind, run_writeText] at h
    rw [run_writeText]
    cases hw : d1.writeFile (root.resolve t) (String.ofList s).toUTF8 with
    | error e =>
      rw [hw] at h
      cases h
      exact .inl ⟨nofun, rfl⟩
    | ok d2 =>
      rw [hw] at h
      cases h
      exact .inr ⟨rfl, rfl⟩

theorem write_eq_ok {root : Path} (hd : d.Works)
    (h : (Source.write (m := StateM Disk) root t s).run d = (.ok (), d')) :
    Written d (root.resolve t) s d' := by
  obtain ⟨x, d1, hx, ⟨hne, -⟩ | ⟨-, hw⟩⟩ := run_write h
  · exact absurd rfl hne
  · obtain ⟨hg, hs⟩ := quiet_makeFoldersAt (root.resolve t).folders.tail d hd
    rw [hx] at hg hs
    exact (writeText_eq_ok (hg.works hd) hw).behind hg hs

end Disk
end BBCode
