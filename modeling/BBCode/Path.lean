import BBCode.Text

/-!
# BBCode.Path

Paths as they are written. What a path means is its list of components: repeated and trailing
slashes and inner dots do not count, double dots do.

Main statements: `parent?_length`, the folder that a path lies in has a shorter path;
`outputPath?_eq_none_iff` says when a file has no place in the output, and `replaceExtension_stem`
what becomes of a file name.
-/

namespace BBCode

/-- A path as it is written. -/
structure Path where
  text : Text
  deriving DecidableEq, Repr

inductive Component where
  | root
  /-- A dot that a relative path starts with. -/
  | here
  | up
  | name (n : Text)
  deriving DecidableEq, Repr

/-- What components are ordered by: names come last, by their bytes. -/
def Component.orderKey : Component → List Nat
  | root => [0]
  | here => [1]
  | up => [2]
  | name n => 3 :: n.toBytes.map UInt8.toNat

def Component.before (a b : Component) : Bool :=
  a.orderKey.lex b.orderKey fun m n => decide (m < n)

namespace Path

def dot : Text := ['.']
def dots : Text := ['.', '.']

/-- The parts between slashes that are not empty. -/
def segments (s : Text) : List Text := (s.splitAt '/').filter fun t => !t.isEmpty

def isAbsolute (p : Path) : Bool := p.text.head? = some '/'

/-- The components that some segments stand for, where dots do not count. -/
def named (ss : List Text) : List Component :=
  (ss.filter (· ≠ dot)).map fun s => if s = dots then .up else .name s

def components (p : Path) : List Component :=
  let ss := segments p.text
  if p.isAbsolute then .root :: named ss
  else if ss.head? = some dot then .here :: named ss.tail
  else named ss

/-- Whether two paths are the same but for their spelling. -/
def same (p q : Path) : Bool := p.components = q.components

/-- Whether a path stands before another, by the first component that differs. -/
def before (p q : Path) : Bool := p.components.lex q.components Component.before

/-- A path, spelled backwards, without the slashes and the inner dots that end it. -/
def dropEnd : Text → Text
  | '/' :: r => dropEnd r
  | '.' :: '/' :: r => dropEnd ('/' :: r)
  | r => r

/-- The folder that a path lies in, as the path spells it. The root and the empty path lie in
none; what a relative path names first lies in the empty path. -/
def parent? (p : Path) : Option Path :=
  match dropEnd p.text.reverse with
  | [] => none
  | c :: r =>
    let above := dropEnd ((c :: r).dropWhile (· ≠ '/'))
    if above.isEmpty && p.isAbsolute then some ⟨['/']⟩ else some ⟨above.reverse⟩

theorem length_dropEnd (s : Text) : (dropEnd s).length ≤ s.length := by
  fun_induction dropEnd s with
  | case1 r ih => exact Nat.le_succ_of_le ih
  | case2 r ih => exact Nat.le_succ_of_le ih
  | case3 r _ _ => exact Nat.le_refl _

theorem head?_dropEnd (s : Text) : (dropEnd s).head? ≠ some '/' := by
  fun_induction dropEnd s with
  | case1 r ih => exact ih
  | case2 r ih => exact ih
  | case3 r h _ =>
    cases r with
    | nil => simp
    | cons c r =>
      intro hc
      simp only [List.head?_cons, Option.some.injEq] at hc
      exact h r (by rw [hc])

theorem parent?_length {p q : Path} (h : p.parent? = some q) :
    q.text.length < p.text.length := by
  unfold parent? at h
  have hlen := length_dropEnd p.text.reverse
  have hhead := head?_dropEnd p.text.reverse
  split at h
  · cases h
  · rename_i c r heq
    rw [heq, List.length_reverse] at hlen
    rw [heq] at hhead
    have hc : c ≠ '/' := fun hc => hhead (by rw [hc]; rfl)
    rw [List.dropWhile_cons_of_pos (by simpa using hc)] at h
    dsimp only at h
    split at h
    · rename_i habs
      cases h
      simp only [Bool.and_eq_true] at habs
      have hroot : p.text.head? = some '/' := by simpa [isAbsolute] using habs.2
      cases ht : p.text with
      | nil => simp [ht] at hroot
      | cons d t =>
        cases t with
        | cons _ _ => simp
        | nil =>
          rw [ht, List.head?_cons, Option.some.injEq] at hroot
          rw [ht, hroot] at heq
          simp [dropEnd] at heq
    · cases h
      have h1 := length_dropEnd (r.dropWhile (· ≠ '/'))
      have h2 := (List.dropWhile_sublist (· ≠ '/') (l := r)).length_le
      simp only [List.length_reverse, List.length_cons] at *
      omega

/-- A path and the folders above it, the path first, as far as they have a name. -/
def folders (p : Path) : List Path :=
  if p.text.isEmpty then []
  else
    match _h : p.parent? with
    | none => [p]
    | some q => p :: folders q
termination_by p.text.length
decreasing_by exact parent?_length _h

/-- The path of an entry of a folder. -/
def child (p : Path) (name : Text) : Path :=
  if p.text.isEmpty || p.text.getLast? = some '/' then ⟨p.text ++ name⟩
  else ⟨p.text ++ '/' :: name⟩

/-- The path of what lies some names below a folder. -/
def below (p : Path) (names : List Text) : Path := names.foldl child p

/-- The last component, if it is a name. -/
def fileName? (p : Path) : Option Text :=
  match p.components.getLast? with
  | some (.name n) => some n
  | _ => none

/-- The parts of a file name before and after its last dot. A dot at the start does not count. -/
def splitName? (n : Text) : Option (Text × Text) :=
  match farthest? id dot n with
  | some (stem, _, ext) => if stem.isEmpty then none else some (stem, ext)
  | none => none

/-- The extensions of sources. -/
def sourceExtensions : List Text := ["bbcode".toList, "bb".toList]

def isSourceName (n : Text) : Bool :=
  match splitName? n with
  | some (_, ext) => sourceExtensions.any fun e => ext.sameAscii e
  | none => false

/-- Whether a path has the extension of a source, whatever the case of its letters. -/
def isSource (p : Path) : Bool := p.fileName?.any isSourceName

/-- A file name with another extension. -/
def replaceExtension (ext n : Text) : Text :=
  match splitName? n with
  | some (stem, _) => stem ++ '.' :: ext
  | none => n ++ '.' :: ext

/-- What is left of a list after another that it starts with. -/
def dropPrefix? : List Component → List Component → Option (List Component)
  | [], cs => some cs
  | _ :: _, [] => none
  | b :: bs, c :: cs => if b = c then dropPrefix? bs cs else none

/-- The segments of a relative path with the extension of the file replaced. Without a file name
at the end nothing is replaced. -/
def retarget (ext : Text) : List Component → List Text
  | [] => []
  | [.name n] => [replaceExtension ext n]
  | .name n :: cs => n :: retarget ext cs
  | .up :: cs => dots :: retarget ext cs
  | _ :: cs => retarget ext cs

/-- The place of the output of a source file, below the output folder and as the source lies below
its root. -/
def outputSegments? (root file : Path) : Option (List Text) :=
  match dropPrefix? root.components file.components with
  | none => none
  | some cs => if cs.contains .root then none else some (retarget "html".toList cs)

def outputPath? (root file : Path) : Option Text :=
  (outputSegments? root file).map (Text.join ['/'])

/-- The path that a relative path leads to from a folder. Its dots are kept. -/
def resolve (root : Path) (relative : Text) : Path :=
  (segments relative).foldl
    (fun p s => if p.text.isEmpty then ⟨s⟩ else ⟨p.text ++ '/' :: s⟩) root

theorem dropPrefix?_eq_some {bs cs rest : List Component} :
    dropPrefix? bs cs = some rest ↔ cs = bs ++ rest := by
  induction bs generalizing cs with
  | nil => simp [dropPrefix?, eq_comm]
  | cons b bs ih =>
    cases cs with
    | nil => simp [dropPrefix?]
    | cons c cs =>
      rw [dropPrefix?]
      by_cases h : b = c
      · subst h
        simp [ih]
      · rw [if_neg h]
        simp [Ne.symm h]

theorem outputPath?_eq_none_iff (root file : Path) :
    outputPath? root file = none ↔
      ∀ cs, file.components = root.components ++ cs → .root ∈ cs := by
  unfold outputPath? outputSegments?
  cases h : dropPrefix? root.components file.components with
  | none =>
    simp only [Option.map_none, true_iff]
    intro cs hcs
    rw [dropPrefix?_eq_some.2 hcs] at h
    cases h
  | some rest =>
    have hrest := dropPrefix?_eq_some.1 h
    by_cases hr : Component.root ∈ rest
    · simp only [List.contains_iff_mem.2 hr, if_true, Option.map_none, true_iff]
      intro cs hcs
      rwa [← List.append_cancel_left (hrest.symm.trans hcs)]
    · simp only [List.contains_iff_mem, hr, if_false, Option.map_some, reduceCtorEq, false_iff]
      intro hall
      exact hr (hall rest hrest)

theorem replaceExtension_stem {n stem ext : Text} (new : Text)
    (h : splitName? n = some (stem, ext)) : replaceExtension new n = stem ++ '.' :: new := by
  rw [replaceExtension, h]

end Path

end BBCode
