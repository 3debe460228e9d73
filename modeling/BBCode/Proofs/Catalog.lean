import BBCode.Catalog
import BBCode.Proofs.Tag.Scan
import Mathlib.Data.List.TakeWhile

/-!
# BBCode.Proofs.Catalog

What an editor inserts and what the scanner reads. The catalog writes its tags without looking at
the grammar of tags; both have the same idea of where a name ends and an example value begins.

* `tagName_eq`: the name of an entry is the name in its tag.
* `scan_snippet`: what is inserted is read as the tags of the entry and its placeholder.
-/

namespace BBCode

namespace CatalogEntry

open Tag

/-- The tag of an entry is a name, perhaps with an example value that can stand in a tag. -/
structure Spells (e : CatalogEntry) (name : Text) (param : Option Text) : Prop where
  isName : Tag.isName name = true
  noBracket : ∀ v ∈ param, ']' ∉ v
  tag_eq : e.tag = match param with
    | none => name
    | some v => name ++ '=' :: v

variable {e : CatalogEntry} {name : Text} {param : Option Text}

theorem Spells.wellSpelled (h : e.Spells name param) : (opening name param).WellSpelled := by
  cases param with
  | none => exact h.isName
  | some v => exact ⟨h.isName, h.noBracket v rfl⟩

/-- The brackets around the tag make it an opening tag. -/
theorem Spells.source_eq (h : e.Spells name param) :
    (opening name param).source = '[' :: e.tag ++ [']'] := by
  rw [h.tag_eq]
  cases param with
  | none => rfl
  | some v => simp [source]

theorem Spells.tagName_eq (h : e.Spells name param) : e.tagName = name := by
  have hname : ∀ c ∈ name, (decide (c ≠ '=')) = true := by
    intro c hc
    have hall := h.isName
    simp only [Tag.isName, Bool.and_eq_true, List.all_eq_true] at hall
    rw [decide_eq_true_eq]
    rintro rfl
    exact absurd (hall.2 '=' hc) (by decide)
  rw [tagName, h.tag_eq]
  cases param with
  | none => exact List.takeWhile_eq_self_iff.2 hname
  | some v =>
    rw [List.takeWhile_append_of_pos hname, List.takeWhile_cons_of_neg (by simp), List.append_nil]

/-- The tag of an entry, the placeholder if there is one, and the closing tag. -/
theorem scan_closed (h : e.Spells name param) (hp : '[' ∉ e.placeholder) :
    scan ((opening name param).source ++ (e.placeholder ++ (closing name).source)) =
      opening name param ::
        ((if e.placeholder = [] then [] else [text e.placeholder]) ++ [closing name]) := by
  have hclosing : scan (closing name).source = [closing name] := by
    have hself : scan ((closing name).source ++ []) = closing name :: scan [] :=
      scan_tag (t := closing name) h.isName []
    rwa [List.append_nil, scan_nil] at hself
  rw [scan_tag h.wellSpelled]
  by_cases hnil : e.placeholder = []
  · rw [if_pos hnil, hnil, List.nil_append, hclosing]
    rfl
  · rw [if_neg hnil, scan_plain hp hnil, hclosing]
    rfl

/-- What is inserted for an entry is read as its opening tag alone or, for a tag that is closed, as
its opening tag, its placeholder if there is one, and its closing tag. Nothing of it is left over. -/
theorem scan_snippet (h : e.Spells name param) (hp : '[' ∉ e.placeholder) :
    e.tagName = name ∧
      scan e.snippet = opening name param ::
        (if e.hasClosingTag then
          (if e.placeholder = [] then [] else [text e.placeholder]) ++ [closing name]
        else []) ∧
      EndToEnd 0 (Text.toBytes e.snippet).length (withSpans source 0 (scan e.snippet)) := by
  refine ⟨h.tagName_eq, ?_,
    withSpans_cover (flatMap_source_scan e.snippet) (decomposes e.snippet).source_ne_nil⟩
  cases hc : e.hasClosingTag with
  | false =>
    have hsnippet : e.snippet = (opening name param).source ++ [] := by
      simp [snippet, hc, h.source_eq]
    rw [hsnippet, scan_tag h.wellSpelled, scan_nil]
    rfl
  | true =>
    have hsnippet : e.snippet =
        (opening name param).source ++ (e.placeholder ++ (closing name).source) := by
      have hclosing : (closing name).source = '[' :: '/' :: name ++ [']'] := rfl
      rw [h.source_eq, hclosing]
      simp [snippet, hc, h.tagName_eq]
    rw [hsnippet, scan_closed h hp]
    rfl

/-- An entry that has the marks of tags in its value and in its placeholder. -/
def marked : CatalogEntry where
  label := "Marked"
  icon := ""
  category := none
  shortcut := none
  tag := "a-1=b=[c".toList
  placeholder := "]=/x]".toList
  hasClosingTag := true
  documentation := ""
  detail := ""
  hoverInfo := ""
  sortOrder := 0

theorem scan_snippet_marked : marked.Spells "a-1".toList (some "b=[c".toList) ∧
    '[' ∉ marked.placeholder ∧ marked.tagName = "a-1".toList ∧
    scan marked.snippet =
      [opening "a-1".toList (some "b=[c".toList), text "]=/x]".toList, closing "a-1".toList] := by
  have hspells : marked.Spells "a-1".toList (some "b=[c".toList) :=
    ⟨by decide, by decide, by decide⟩
  have hplaceholder : '[' ∉ marked.placeholder := by decide
  obtain ⟨hname, hscan, -⟩ := scan_snippet hspells hplaceholder
  exact ⟨hspells, hplaceholder, hname, hscan⟩

end CatalogEntry

end BBCode
