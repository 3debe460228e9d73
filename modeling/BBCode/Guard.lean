import BBCode.Options
import BBCode.Rule
import BBCode.Text.Escape

/-!
# BBCode.Guard

Code regions. Their contents are lifted out of a document before anything else is done to it and
put back, escaped, at the very end. In between, a placeholder made of two private-use characters
stands for each; these characters are removed from the document first, so that no placeholder can
be forged.

Main statements: `text_protect` says how the protected text is made, `restore_nil` that without
code regions nothing is put back.
-/

namespace BBCode

/-- A document with its code regions lifted out. -/
structure Guarded where
  text : Text
  /-- The contents of the code regions, in document order. -/
  blocks : List Text
  deriving DecidableEq, Repr

namespace Guarded

def placeholderStart : Char := '\ue000'
def placeholderStop : Char := '\ue001'

/-- What stands for the code region with index `k`. -/
def placeholder (k : Nat) : Text :=
  placeholderStart :: "CODE".toList ++ decimal k ++ [placeholderStop]

theorem placeholder_ne_nil (k : Nat) : placeholder k ≠ [] := by simp [placeholder]

def isReserved (c : Char) : Bool := c = placeholderStart || c = placeholderStop

/-- The document without the characters that placeholders are made of. -/
def strip (s : Text) : Text := s.filter fun c => !isReserved c

def tag : TagPair := ⟨"code".toList, none⟩

/-- Reads a code region that ends at the last closing tag. -/
def readGreedy? (s : Text) : Option (Region × Text) :=
  match tag.readOpening? s with
  | none => none
  | some (opening, _, r) =>
    (farthest? foldCase tag.closer r).map fun x => ({ opening, body := x.1, closing := x.2.1 }, x.2.2)

theorem readGreedy?_source {s r : Text} {x : Region} (h : readGreedy? s = some (x, r)) :
    s = x.source ++ r ∧ x.opening ≠ [] := by
  unfold readGreedy? at h
  split at h
  · cases h
  · rename_i o p q hq
    obtain ⟨rfl, ho⟩ := TagPair.readOpening?_source hq
    simp only [Option.map_eq_some_iff, Prod.mk.injEq] at h
    obtain ⟨⟨b, c, r'⟩, hy, rfl, rfl⟩ := h
    obtain ⟨rfl, _⟩ := farthest?_append hy
    exact ⟨by simp [Region.source], ho⟩

/-- The code regions of a document. -/
def pattern : CodeMatching → Pattern Char Region
  | .nearest => tag.pattern
  | .greedy =>
    { read? := readGreedy?
      shorter := by
        intro s x r h
        obtain ⟨rfl, ho⟩ := readGreedy?_source h
        have := List.length_pos_iff.2 ho
        simp only [Region.source, List.length_append]
        omega }

/-- The contents of the code regions among some pieces. -/
def contents (ps : List (Piece Char Region)) : List Text :=
  ps.filterMap fun
    | .plain _ => none
    | .found r => some r.body

/-- Lifts the code regions out of a document. -/
def protect (source : Text) (m : CodeMatching) : Guarded :=
  let ps := (pattern m).pieces (strip source)
  ⟨(Piece.fillFrom (fun k _ => placeholder k) 0 ps).1, contents ps⟩

/-- The element that shows the contents of a code region. -/
def codeBlock (raw : Text) : Text := Rule.between "<pre>" "</pre>" raw.escape.trimBreaks

/-- Puts the contents of the code region with index `k` in the place of its placeholder. A text
can hold several copies of one, because a link repeats its address. -/
def restoreOne (html : Text) (block : Text × Nat) : Text :=
  (Pattern.word id (placeholder block.2) (placeholder_ne_nil block.2)).substitute
    (fun _ => codeBlock block.1) html

/-- Puts the code regions back into a text, and drops the line break after each. -/
def restore (blocks : List Text) (html : Text) : Text :=
  if blocks.isEmpty then html
  else
    (Rule.tagBreak "</pre>".toList).substitute (fun _ => "</pre>".toList)
      (blocks.zipIdx.foldl restoreOne html)

theorem text_protect (source : Text) (m : CodeMatching) :
    (protect source m).text =
      (Piece.fillFrom (fun k _ => placeholder k) 0 ((pattern m).pieces (strip source))).1 := rfl

theorem restore_nil (html : Text) : restore [] html = html := rfl

end Guarded

end BBCode
