import Mathlib.Logic.Relation
import BBCode.Source
import BBCode.Proofs.Path

/-!
# BBCode.Proofs.Path.Spelling

Spellings of one path, and the place of an output whatever the spelling. Two texts spell one path if
one becomes the other when slashes are repeated or put at the end and dots are put between slashes.
Every text spells one path with the text that its components spell out, so this is the same as
having the same components.

Main statements: `components_eq_iff`, and `outputPath_spelled`, which says when a file has a place in
the output and which one, and that it has the same one however it and the root are spelled.
-/

namespace BBCode

/-- How a component is spelled. The slash of the root is the one behind it. -/
def Component.text : Component → Text
  | root => []
  | here => Path.dot
  | up => Path.dots
  | name n => n

namespace Path

variable {p q root file : Path} {a b t ext : Text} {c : Char} {cs : List Component}

/-- What can be added to a text that still spells the same path. -/
inductive Padded : Text → Text → Prop
  | slash (a b : Text) : Padded (a ++ '/' :: b) (a ++ '/' :: '/' :: b)
  | ending {a : Text} (h : a ≠ []) : Padded a (a ++ ['/'])
  | dot (a b : Text) : Padded (a ++ '/' :: b) (a ++ '/' :: '.' :: '/' :: b)

/-- Two texts spell one path. -/
def SameSpelled : Text → Text → Prop := Relation.EqvGen Padded

theorem Padded.same (h : Padded a b) : SameSpelled a b := .rel _ _ h

theorem SameSpelled.refl (a : Text) : SameSpelled a a := Relation.EqvGen.refl a

theorem SameSpelled.symm (h : SameSpelled a b) : SameSpelled b a := Relation.EqvGen.symm _ _ h

theorem SameSpelled.trans {c : Text} (h : SameSpelled a b) (h' : SameSpelled b c) :
    SameSpelled a c := Relation.EqvGen.trans _ _ _ h h'

/-- A segment as a component, behind the first one. -/
theorem named_cons (s : Text) (ss : List Text) :
    named (s :: ss) = if s = dot then named ss
      else (if s = dots then .up else .name s) :: named ss := by
  by_cases h : s = dot <;> simp [named, h]

theorem named_segments_append (ss ts : List Text) : named (ss ++ ts) = named ss ++ named ts := by
  rw [named, List.filter_append, List.map_append, named, named]

theorem root_notMem_named (ss : List Text) : .root ∉ named ss := by
  intro h
  obtain ⟨s, -, hs⟩ := List.mem_map.1 h
  split at hs <;> cases hs

/-- What does not start with a slash starts with a segment. -/
theorem segments_cons (h : c ≠ '/') (a : Text) : ∃ s ss, segments (c :: a) = (c :: s) :: ss := by
  cases hs : a.splitAt '/' with
  | nil => exact absurd hs (Text.splitAt_ne_nil '/' a)
  | cons s ss => simp [segments, Text.splitAt, h, hs]

/-- The components of what starts with a slash. -/
theorem components_root (b : Text) : components ⟨'/' :: b⟩ = .root :: named (segments b) := by
  have hs : segments ('/' :: b) = segments b := segments_append [] b
  rw [components, isAbsolute, hs]
  rfl

/-- The components of what does not, by its first segment. -/
theorem components_relative {s : Text} {ss : List Text} (hc : a.head? ≠ some '/')
    (hs : segments a = s :: ss) :
    components ⟨a⟩ = (if s = dot then .here else if s = dots then .up else .name s) :: named ss := by
  have habs : isAbsolute ⟨a⟩ = false := by simpa [isAbsolute] using hc
  rw [components, habs, hs]
  by_cases hd : s = dot
  · simp [hd]
  · simp [hd, named_cons]

/-- A slash behind the first sign of a path is followed by more components. -/
theorem components_append (ha : a ≠ []) (b : Text) :
    components ⟨a ++ '/' :: b⟩ = components ⟨a⟩ ++ named (segments b) := by
  obtain ⟨c, a, rfl⟩ := List.exists_cons_of_ne_nil ha
  by_cases hc : c = '/'
  · subst hc
    rw [List.cons_append, components_root, components_root, segments_append,
      named_segments_append, List.cons_append]
  · obtain ⟨s, ss, hs⟩ := segments_cons hc a
    have hs' : segments (c :: a ++ '/' :: b) = (c :: s) :: (ss ++ segments b) := by
      rw [segments_append, hs, List.cons_append]
    rw [components_relative (by simpa using hc) hs, components_relative (by simpa using hc) hs',
      named_segments_append, List.cons_append]

theorem components_slash (a : Text) {b b' : Text} (h : named (segments b) = named (segments b')) :
    components ⟨a ++ '/' :: b⟩ = components ⟨a ++ '/' :: b'⟩ := by
  by_cases ha : a = []
  · subst ha
    rw [List.nil_append, List.nil_append, components_root, components_root, h]
  · rw [components_append ha, components_append ha, h]

theorem Padded.components_eq (h : Padded a b) : components ⟨a⟩ = components ⟨b⟩ := by
  cases h with
  | slash a b =>
    refine components_slash a ?_
    rw [show segments ('/' :: b) = segments b from segments_append [] b]
  | ending ha =>
    rw [components_append ha, show named (segments []) = [] from rfl, List.append_nil]
  | dot a b =>
    refine components_slash a ?_
    rw [show segments ('.' :: '/' :: b) = Path.dot :: segments b from segments_append Path.dot b,
      named_cons, if_pos rfl]

theorem SameSpelled.components_eq (h : SameSpelled a b) : components ⟨a⟩ = components ⟨b⟩ := by
  induction h with
  | rel _ _ h => exact h.components_eq
  | refl _ => rfl
  | symm _ _ _ ih => exact ih.symm
  | trans _ _ _ _ _ ih ih' => exact ih.trans ih'

/-- Components spelled out, with a slash behind each. -/
def spell (cs : List Component) : Text := cs.flatMap fun c => c.text ++ ['/']

theorem spell_named (ss : List Text) :
    spell (named ss) = (ss.filter (· ≠ dot)).flatMap (· ++ ['/']) := by
  rw [spell, named, List.flatMap_map]
  congr 1
  funext s
  by_cases h : s = dots <;> simp [h, Component.text]

/-- Empty segments and dots behind a slash can be left out. -/
theorem same_segments (a : Text) (ss : List Text) :
    SameSpelled (a ++ '/' :: ss.flatMap (· ++ ['/']))
      (a ++ '/' :: spell (named (ss.filter fun s => !s.isEmpty))) := by
  rw [spell_named]
  induction ss generalizing a with
  | nil => exact .refl _
  | cons s ss ih =>
    by_cases hs : s = []
    · subst hs
      exact (Padded.slash a _).same.symm.trans (ih a)
    · by_cases hd : s = dot
      · subst hd
        exact (Padded.dot a _).same.symm.trans (ih a)
      · simpa [hs, hd] using ih (a ++ '/' :: s)

theorem flatMap_splitAt (s : Text) : (s.splitAt '/').flatMap (· ++ ['/']) = s ++ ['/'] := by
  have h (ss : List Text) (hss : ss ≠ []) :
      ss.flatMap (· ++ ['/']) = Text.join ['/'] ss ++ ['/'] := by
    induction ss with
    | nil => exact absurd rfl hss
    | cons s ss ih =>
      cases ss with
      | nil => simp [Text.join]
      | cons _ _ => rw [List.flatMap_cons, ih (by simp), Text.join]; simp
  rw [h _ (Text.splitAt_ne_nil '/' s), Text.join_splitAt]

theorem same_behind (a b : Text) :
    SameSpelled (a ++ '/' :: b) (a ++ '/' :: spell (named (segments b))) := by
  refine (Padded.ending (a := a ++ '/' :: b) (by simp)).same.trans ?_
  have h := same_segments a (b.splitAt '/')
  rwa [flatMap_splitAt, ← List.cons_append, ← List.append_assoc] at h

theorem spell_first (ha : IsSegment a) (cs : List Component) :
    spell (components ⟨a⟩ ++ cs) = a ++ '/' :: spell cs := by
  rw [components_relative ha.head?_ne ha.segments]
  have htext : Component.text (if a = dot then .here else if a = dots then .up else .name a) = a := by
    split
    · rename_i h
      exact h.symm
    · split
      · rename_i h
        exact h.symm
      · rfl
  rw [List.cons_append, spell, List.flatMap_cons, htext, List.append_assoc]
  rfl

/-- Every text spells the path that its components spell out. -/
theorem same_spell (a : Text) : SameSpelled a (spell (components ⟨a⟩)) := by
  by_cases ha : a = []
  · subst ha
    exact .refl _
  by_cases hslash : '/' ∈ a
  · obtain ⟨s, b, rfl, hs⟩ := List.eq_append_cons_of_mem hslash
    by_cases hnil : s = []
    · subst hnil
      rw [List.nil_append, components_root]
      exact same_behind [] b
    · rw [components_append hnil, spell_first ⟨hnil, hs⟩]
      exact same_behind s b
  · have h := spell_first ⟨ha, hslash⟩ []
    rw [List.append_nil] at h
    rw [h]
    exact (Padded.ending ha).same

/-- Two texts spell one path if and only if they have the same components. -/
theorem components_eq_iff : p.components = q.components ↔ SameSpelled p.text q.text := by
  constructor
  · intro h
    exact (same_spell p.text).trans (h ▸ (same_spell q.text).symm)
  · exact SameSpelled.components_eq

/-- The first component stands alone, the others are those of some segments. -/
theorem components_eq_cons (h : p.text ≠ []) : ∃ c ss, p.components = c :: named ss := by
  obtain ⟨c, a, ha⟩ := List.exists_cons_of_ne_nil h
  obtain ⟨t⟩ := p
  obtain rfl : t = c :: a := ha
  by_cases hc : c = '/'
  · subst hc
    exact ⟨_, _, components_root a⟩
  · obtain ⟨s, ss, hs⟩ := segments_cons hc a
    exact ⟨_, _, components_relative (by simpa using hc) hs⟩

/-- What is left of a file behind its root is never absolute. -/
theorem root_notMem_of_components (hroot : root.text ≠ [])
    (h : file.components = root.components ++ cs) : .root ∉ cs := by
  obtain ⟨c, ss, hc⟩ := components_eq_cons hroot
  rw [hc, List.cons_append] at h
  by_cases hfile : file.text = []
  · obtain ⟨t⟩ := file
    obtain rfl : t = [] := hfile
    cases h
  · obtain ⟨c', ss', hc'⟩ := components_eq_cons hfile
    obtain ⟨-, hss⟩ := List.cons.inj (hc'.symm.trans h)
    intro hmem
    exact root_notMem_named ss' (hss ▸ List.mem_append_right _ hmem)

theorem outputPath?_eq_none (hroot : root.text ≠ []) :
    outputPath? root file = none ↔ ¬ root.components <+: file.components := by
  rw [outputPath?_eq_none_iff]
  constructor
  · rintro h ⟨cs, hcs⟩
    exact root_notMem_of_components hroot hcs.symm (h cs hcs.symm)
  · intro h cs hcs
    exact absurd ⟨cs, hcs.symm⟩ h

theorem outputPath?_congr {root' file' : Path} (hroot : root.components = root'.components)
    (hfile : file.components = file'.components) :
    outputPath? root file = outputPath? root' file' := by
  rw [outputPath?, outputPath?, outputSegments?, outputSegments?, hroot, hfile]

/-- A file has no place in the output if and only if the root is not what it starts with. Else it has
the place below the output folder that it has below the root, but for the extension behind its last
dot, and has it however it and the root are spelled. -/
theorem outputPath_spelled (hroot : root.text ≠ []) :
    (∀ e, Source.outputPath root file = .error e ↔
      e = .outsideRoot file root ∧ ¬ root.components <+: file.components) ∧
    (∀ names stem ext, stem ≠ [] → '.' ∉ ext →
      file.components = root.components ++ (names ++ [stem ++ '.' :: ext]).map .name →
      Source.outputPath root file = .ok (Text.join ['/'] (names ++ [stem ++ ".html".toList]))) ∧
    ∀ root' file' : Path, SameSpelled root.text root'.text → SameSpelled file.text file'.text →
      ∀ t, Source.outputPath root file = .ok t ↔ Source.outputPath root' file' = .ok t := by
  refine ⟨fun e => ?_, fun names stem ext hstem hext hfile => ?_, fun root' file' hr hf t => ?_⟩
  · rw [Source.outputPath, ← outputPath?_eq_none hroot]
    cases outputPath? root file <;> simp [eq_comm]
  · rw [Source.outputPath, outputPath?_names hfile, replaceExtension,
      splitName?_append hstem hext]
    rfl
  · rw [Source.outputPath, Source.outputPath,
      outputPath?_congr (components_eq_iff.2 hr) (components_eq_iff.2 hf)]
    cases outputPath? root' file' <;> simp

/-- A file and its root in two spellings each. -/
theorem outputPath_spelled_dots : (Path.mk "docs//".toList).text ≠ [] ∧
    Source.outputPath ⟨"docs//".toList⟩ ⟨"docs/./a//intro.v2.bb".toList⟩ =
      .ok "a/intro.v2.html".toList ∧
    Source.outputPath ⟨"docs".toList⟩ ⟨"docs/a/intro.v2.bb".toList⟩ =
      .ok "a/intro.v2.html".toList := by
  have hroot : (Path.mk "docs//".toList).text ≠ [] := by decide
  obtain ⟨-, hnames, hsame⟩ :=
    @outputPath_spelled ⟨"docs//".toList⟩ ⟨"docs/./a//intro.v2.bb".toList⟩ hroot
  have h := hnames ["a".toList] "intro.v2".toList "bb".toList (by decide) (by decide) (by decide)
  exact ⟨hroot, h, (hsame ⟨"docs".toList⟩ ⟨"docs/a/intro.v2.bb".toList⟩
    (components_eq_iff.1 (by decide)) (components_eq_iff.1 (by decide)) _).1 h⟩

end Path

end BBCode
