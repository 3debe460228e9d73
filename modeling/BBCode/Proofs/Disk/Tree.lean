import BBCode.Disk
import BBCode.Proofs.Path

/-!
# BBCode.Proofs.Disk.Tree

What stands where in a file tree, and what is left there when an entry is put in at some place: a
file changes its own place alone, a new folder changes the content of no place.

Main statements: `contentAt?_putAt` and `isFolder_putAt` say what an entry that is put in does to
every place; `AllNames.of_entryAt?`, every name that leads to an entry is of the kind that all are.
-/

namespace BBCode

namespace Entry

def content? : Entry → Option ByteArray
  | file c => some c
  | folder _ => none

/-- The entry that some names lead to from this one. -/
def at? (loc : List Text) : Entry → Option Entry
  | file c => if loc.isEmpty then some (file c) else none
  | folder g => g.entryAt? loc

/-- A file, or a folder with nothing in it. -/
def IsBare (e : Entry) : Prop := ∀ g, e = folder g → g = .empty

theorem at?_nil (e : Entry) : e.at? [] = some e := by
  cases e <;> rfl

theorem IsBare.at?_cons {e : Entry} (he : e.IsBare) (n : Text) (loc : List Text) :
    e.at? (n :: loc) = none := by
  cases e with
  | file c => rfl
  | folder g =>
    cases he g rfl
    rfl

end Entry

namespace Folder

variable {f g : Folder} {e : Entry} {name n : Text} {here loc a b : List Text}

def IsFolder (f : Folder) (loc : List Text) : Prop := ∃ g, f.entryAt? loc = some (.folder g)

/-- The content of the file that some names lead to. -/
def contentAt? (f : Folder) (loc : List Text) : Option ByteArray :=
  (f.entryAt? loc).bind Entry.content?

/-- Every entry is called by a name, and no two in one folder by the same. -/
def Sound : Folder → Prop
  | empty => True
  | file n _ rest => Path.IsName n ∧ rest.find? n = none ∧ rest.Sound
  | folder n inside rest => Path.IsName n ∧ rest.find? n = none ∧ inside.Sound ∧ rest.Sound

theorem entryAt?_cons : f.entryAt? (n :: loc) = (f.find? n).bind (·.at? loc) := by
  rw [entryAt?]
  cases f.find? n with
  | none => rfl
  | some e => cases e <;> rfl

theorem isFolder_nil (f : Folder) : f.IsFolder [] := ⟨f, rfl⟩

theorem isFolder_cons :
    f.IsFolder (n :: loc) ↔ ∃ g, f.find? n = some (.folder g) ∧ g.IsFolder loc := by
  constructor
  · rintro ⟨k, hk⟩
    rw [entryAt?_cons] at hk
    obtain ⟨e, hn, he⟩ := Option.bind_eq_some_iff.1 hk
    cases e with
    | file c => simp [Entry.at?] at he
    | folder g => exact ⟨g, hn, k, he⟩
  · rintro ⟨g, hn, k, hk⟩
    exact ⟨k, by rw [entryAt?_cons, hn]; exact hk⟩

/-- Whatever stands below a place, that place is a folder. -/
theorem isFolder_of_entryAt? (h : f.entryAt? (a ++ b) = some e) (hb : b ≠ []) : f.IsFolder a := by
  induction a generalizing f with
  | nil => exact isFolder_nil f
  | cons n a ih =>
    rw [List.cons_append, entryAt?_cons] at h
    obtain ⟨k, hn, hk⟩ := Option.bind_eq_some_iff.1 h
    cases k with
    | file c => simp [Entry.at?, hb] at hk
    | folder g => exact isFolder_cons.2 ⟨g, hn, ih hk⟩

theorem IsFolder.of_append (h : f.IsFolder (a ++ b)) : f.IsFolder a := by
  by_cases hb : b = []
  · rwa [hb, List.append_nil] at h
  · obtain ⟨g, hg⟩ := h
    exact isFolder_of_entryAt? hg hb

theorem IsFolder.dropLast (h : f.IsFolder loc) : f.IsFolder loc.dropLast := by
  rcases List.eq_nil_or_concat loc with rfl | ⟨a, n, rfl⟩
  · exact h
  · rw [List.concat_eq_append] at h ⊢
    rw [List.dropLast_concat]
    exact h.of_append

theorem entryAt?_append (h : f.entryAt? a = some (.folder g)) :
    f.entryAt? (a ++ b) = g.entryAt? b := by
  induction a generalizing f with
  | nil =>
    cases h
    rfl
  | cons n a ih =>
    obtain ⟨k, hn, -⟩ := isFolder_cons.1 ⟨g, h⟩
    rw [entryAt?_cons, hn] at h
    rw [List.cons_append, entryAt?_cons, hn]
    exact ih h

theorem contentAt?_eq_some {c : ByteArray} :
    f.contentAt? loc = some c ↔ f.entryAt? loc = some (.file c) := by
  unfold contentAt?
  cases f.entryAt? loc with
  | none => simp
  | some e => cases e <;> simp [Entry.content?]

theorem contentAt?_cons :
    f.contentAt? (n :: loc) = (f.find? n).bind fun e => (e.at? loc).bind Entry.content? := by
  rw [contentAt?, entryAt?_cons, Option.bind_assoc]

/-- An entry can be put in below a folder where no folder is in its way. -/
structure Free (f : Folder) (here : List Text) (name : Text) : Prop where
  parent : f.IsFolder here
  vacant : ¬ f.IsFolder (here ++ [name])

theorem Free.below (h : Free f (n :: here) name) :
    ∃ g, f.find? n = some (.folder g) ∧ Free g here name := by
  obtain ⟨g, hn, hg⟩ := isFolder_cons.1 h.parent
  exact ⟨g, hn, hg, fun hv => h.vacant (isFolder_cons.2 ⟨g, hn, hv⟩)⟩

theorem putAt_cons (h : f.find? n = some (.folder g)) :
    f.putAt name e (n :: here) = f.put n (.folder (g.putAt name e here)) := by
  rw [putAt, h]

theorem contentAt?_putAt (he : e.IsBare) (h : Free f here name) :
    (f.putAt name e here).contentAt? loc =
      if loc = here ++ [name] then e.content? else f.contentAt? loc := by
  induction here generalizing f loc with
  | nil =>
    cases loc with
    | nil => rfl
    | cons n loc =>
      rw [putAt, contentAt?_cons, find?_put]
      by_cases hn : name = n
      · subst hn
        cases loc with
        | nil => simp [Entry.at?_nil]
        | cons m loc =>
          -- Nothing was below the name before, since no folder was called by it.
          have hv : f.contentAt? (name :: m :: loc) = none := by
            cases hc : f.contentAt? (name :: m :: loc) with
            | none => rfl
            | some c =>
              refine absurd ?_ h.vacant
              exact isFolder_of_entryAt? (a := [name]) (contentAt?_eq_some.1 hc) (by simp)
          simp [he.at?_cons, hv]
      · simp [hn, Ne.symm hn, contentAt?_cons]
  | cons m here ih =>
    obtain ⟨g, hm, hg⟩ := h.below
    rw [putAt_cons hm]
    cases loc with
    | nil => rfl
    | cons n loc =>
      rw [contentAt?_cons, find?_put]
      by_cases hn : m = n
      · subst hn
        simpa [contentAt?, entryAt?_cons, Entry.at?, hm] using ih hg
      · simp [hn, Ne.symm hn, contentAt?_cons]

theorem isFolder_putAt (h : Free f here name) (hloc : f.IsFolder loc) :
    (f.putAt name e here).IsFolder loc := by
  induction here generalizing f loc with
  | nil =>
    cases loc with
    | nil => exact isFolder_nil _
    | cons n loc =>
      obtain ⟨g, hn, hg⟩ := isFolder_cons.1 hloc
      have hne : name ≠ n := by
        rintro rfl
        exact h.vacant (isFolder_cons.2 ⟨g, hn, isFolder_nil g⟩)
      exact isFolder_cons.2 ⟨g, by rw [putAt, find?_put, if_neg hne, hn], hg⟩
  | cons m here ih =>
    obtain ⟨g, hm, hg⟩ := h.below
    rw [putAt_cons hm]
    cases loc with
    | nil => exact isFolder_nil _
    | cons n loc =>
      obtain ⟨k, hn, hk⟩ := isFolder_cons.1 hloc
      by_cases hmn : m = n
      · subst hmn
        cases hm.symm.trans hn
        exact isFolder_cons.2 ⟨_, by rw [find?_put, if_pos rfl], ih hg hk⟩
      · exact isFolder_cons.2 ⟨k, by rw [find?_put, if_neg hmn, hn], hk⟩

/-- Nothing becomes a folder but what is put in. -/
theorem IsFolder.of_putAt (he : e.IsBare) (h : Free f here name)
    (hloc : (f.putAt name e here).IsFolder loc) :
    f.IsFolder loc ∨ (loc = here ++ [name] ∧ e = .folder .empty) := by
  induction here generalizing f loc with
  | nil =>
    cases loc with
    | nil => exact .inl (isFolder_nil f)
    | cons n loc =>
      obtain ⟨g, hn, hg⟩ := isFolder_cons.1 hloc
      rw [putAt, find?_put] at hn
      split at hn
      · rename_i hname
        cases hn
        cases he g rfl
        cases loc with
        | nil => exact .inr ⟨by rw [hname]; rfl, rfl⟩
        | cons m loc =>
          obtain ⟨k, hk, -⟩ := isFolder_cons.1 hg
          cases hk
      · exact .inl (isFolder_cons.2 ⟨g, hn, hg⟩)
  | cons m here ih =>
    obtain ⟨g, hm, hfree⟩ := h.below
    rw [putAt_cons hm] at hloc
    cases loc with
    | nil => exact .inl (isFolder_nil f)
    | cons n loc =>
      obtain ⟨k, hn, hk⟩ := isFolder_cons.1 hloc
      rw [find?_put] at hn
      split at hn
      · rename_i hname
        cases hn
        subst hname
        rcases ih hfree hk with hk | ⟨rfl, rfl⟩
        · exact .inl (isFolder_cons.2 ⟨g, hm, hk⟩)
        · exact .inr ⟨rfl, rfl⟩
      · exact .inl (isFolder_cons.2 ⟨k, hn, hk⟩)

theorem Sound.of_find? (hf : f.Sound) (h : f.find? n = some (.folder g)) : g.Sound := by
  induction f with
  | empty => cases h
  | file m c rest ih =>
    rw [find?] at h
    split at h
    · cases h
    · exact ih hf.2.2 h
  | folder m inside rest _ ih =>
    rw [find?] at h
    split at h
    · cases h
      exact hf.2.2.1
    · exact ih hf.2.2.2 h

theorem Sound.of_entryAt? (hf : f.Sound) (h : f.entryAt? loc = some (.folder g)) : g.Sound := by
  induction loc generalizing f with
  | nil =>
    cases h
    exact hf
  | cons n loc ih =>
    obtain ⟨k, hn, -⟩ := isFolder_cons.1 ⟨g, h⟩
    rw [entryAt?_cons, hn] at h
    exact ih (hf.of_find? hn) h

theorem mem_names : n ∈ f.names ↔ ∃ e, f.find? n = some e := by
  induction f with
  | empty => simp [names, find?]
  | file m c rest ih =>
    rw [names, List.mem_cons, ih, find?]
    by_cases h : m = n
    · simp [h]
    · simp [h, Ne.symm h]
  | folder m inside rest _ ih =>
    rw [names, List.mem_cons, ih, find?]
    by_cases h : m = n
    · simp [h]
    · simp [h, Ne.symm h]

theorem Sound.nodup_names (hf : f.Sound) : f.names.Nodup := by
  have hnew {m : Text} {rest : Folder} (h : rest.find? m = none) : m ∉ rest.names := by
    rw [mem_names, h]
    simp
  induction f with
  | empty => exact List.nodup_nil
  | file m c rest ih => exact List.nodup_cons.2 ⟨hnew hf.2.1, ih hf.2.2⟩
  | folder m inside rest _ ih => exact List.nodup_cons.2 ⟨hnew hf.2.1, ih hf.2.2.2⟩

/-- Every entry at any depth is called by a name with a property. -/
def AllNames (P : Text → Prop) : Folder → Prop
  | empty => True
  | file n _ rest => P n ∧ rest.AllNames P
  | folder n inside rest => P n ∧ inside.AllNames P ∧ rest.AllNames P

theorem Sound.allNames (hf : f.Sound) : f.AllNames Path.IsName := by
  induction f with
  | empty => trivial
  | file m c rest ih => exact ⟨hf.1, ih hf.2.2⟩
  | folder m inside rest ihi ih => exact ⟨hf.1, ihi hf.2.2.1, ih hf.2.2.2⟩

variable {P : Text → Prop}

theorem AllNames.of_find? (hf : f.AllNames P) (h : f.find? n = some e) :
    P n ∧ ∀ g, e = .folder g → g.AllNames P := by
  induction f with
  | empty => cases h
  | file m c rest ih =>
    rw [find?] at h
    split at h
    · rename_i hm
      cases h
      exact ⟨hm ▸ hf.1, fun g hg => by cases hg⟩
    · exact ih hf.2 h
  | folder m inside rest _ ih =>
    rw [find?] at h
    split at h
    · rename_i hm
      cases h
      exact ⟨hm ▸ hf.1, fun g hg => by cases hg; exact hf.2.1⟩
    · exact ih hf.2.2 h

theorem AllNames.of_entryAt? (hf : f.AllNames P) (h : f.entryAt? loc = some e) :
    ∀ n ∈ loc, P n := by
  induction loc generalizing f with
  | nil => nofun
  | cons m loc ih =>
    rw [entryAt?_cons] at h
    obtain ⟨k, hm, hk⟩ := Option.bind_eq_some_iff.1 h
    obtain ⟨hPm, hinside⟩ := hf.of_find? hm
    refine List.forall_mem_cons.2 ⟨hPm, ?_⟩
    cases k with
    | file c =>
      cases loc with
      | nil => nofun
      | cons _ _ => cases hk
    | folder g => exact ih (hinside g rfl) hk

end Folder
end BBCode
