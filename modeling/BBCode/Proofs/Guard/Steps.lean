import BBCode.Proofs.Guard.Whole
import BBCode.Proofs.Lasting.Steps

/-!
# BBCode.Proofs.Guard.Steps

No step of a render cuts a placeholder in two, makes one or leaves a part of one. So every
placeholder that is there at the end is one of the code regions of the document and is replaced,
and the page holds no character that placeholders are made of.

* `whole_run`: the statement about the steps.
* `html_unreserved`: the statement about pages.
-/

namespace BBCode

open Guarded

namespace Page

/-- After all steps, the characters of placeholders stand in the placeholders of the code regions
of the document only. -/
theorem whole_run {o : Options} (ho : Unreserved o.profileUrl) (source : Text) (m : WidgetMap) :
    Whole (protect source o.codeBlocks).blocks.length
      (run o (protect source o.codeBlocks).text m).1 :=
  (Whole.lasting _).run (.of_unreserved ho) (whole_protect source o.codeBlocks) m

/-- No placeholder leaks into a page, and none can be forged: the page holds no character that
placeholders are made of, and a document gives the same page as without those characters. -/
theorem html_unreserved (o : Options) (ho : Unreserved o.profileUrl) (source : Text)
    (m : WidgetMap) :
    (placeholderStart ∉ (render o source m).html ∧ placeholderStop ∉ (render o source m).html) ∧
      render o source m = render o (strip source) m := by
  have hpage : Unreserved (render o source m).html :=
    unreserved_restore (fun b hb => unreserved_of_mem_blocks hb) (whole_run ho source m)
  refine ⟨⟨fun h => ?_, fun h => ?_⟩, ?_⟩
  · exact absurd (hpage _ h) (by decide)
  · exact absurd (hpage _ h) (by decide)
  · unfold render
    rw [protect_strip]

/-- A document with a forged placeholder in front of a code region. -/
theorem html_unreserved_forged :
    Unreserved ({} : Options).profileUrl ∧
      strip "\ue000CODE0\ue001[code]a[/code]".toList = "CODE0[code]a[/code]".toList ∧
      placeholderStart ∉ (render {} "\ue000CODE0\ue001[code]a[/code]".toList .empty).html ∧
      placeholderStop ∉ (render {} "\ue000CODE0\ue001[code]a[/code]".toList .empty).html ∧
      render {} "\ue000CODE0\ue001[code]a[/code]".toList .empty =
        render {} "CODE0[code]a[/code]".toList .empty := by
  have hstrip : strip "\ue000CODE0\ue001[code]a[/code]".toList = "CODE0[code]a[/code]".toList := by
    decide
  have ho : Unreserved ({} : Options).profileUrl := by decide
  obtain ⟨⟨hstart, hstop⟩, hpage⟩ :=
    html_unreserved {} ho "\ue000CODE0\ue001[code]a[/code]".toList .empty
  rw [hstrip] at hpage
  exact ⟨ho, hstrip, hstart, hstop, hpage⟩

end Page

end BBCode
