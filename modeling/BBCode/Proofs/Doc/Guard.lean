import BBCode.Proofs.Doc.Table
import BBCode.Proofs.Guard.Replace

/-!
# BBCode.Proofs.Doc.Guard

Code regions of trees. Lifting them out finds exactly the code regions of the tree and leaves it
with placeholders numbered in document order; when all else is HTML, putting them back puts each
behind the placeholder it was lifted from.

* `protect_source`: what is lifted out of the markup of a tree, and what is left.
* `restore_staged`: what is put back.
-/

namespace BBCode

theorem codes_append (ns ms : List Node) : codes (ns ++ ms) = codes ns ++ codes ms :=
  List.filterMap_append

namespace Guarded

variable {o : Options} {flag : Text → Bool} {p : Place} {d : Doc p}

/-! ## Lifting out -/

/-- Lifting out the code regions of a text that stands behind some nodes: what is left of it, and
the contents of all regions so far. -/
def lifting : Pass ((Text × Nat) × List Text) where
  run ns s := (Piece.fillFrom (fun k _ => placeholder k) (codes ns).length (tag.pattern.pieces s),
    codes ns ++ contents (tag.pattern.pieces s))
  onto x r := (Piece.onto x r.1, r.2)
  onto_nil _ := rfl
  onto_append x y r := by rw [Piece.onto_onto]

theorem lifting_skips {ns ms : List Node} {x : Text} (hms : codes ms = [])
    (h : Skips (readWord? foldCase "[code]".toList) x) : lifting.Turns ns ms x x := by
  have hskip : Skips tag.pattern.read? x := TagPair.skips_readPair? (t := tag) h
  have hplain : contents (x.map Piece.plain) = [] := by
    rw [contents, List.filterMap_map]
    exact List.filterMap_eq_nil_iff.2 fun c _ => rfl
  intro z
  have hcontents : contents (tag.pattern.pieces (x ++ z)) = contents (tag.pattern.pieces z) := by
    rw [Pattern.pieces_append hskip, contents, List.filterMap_append]
    exact congrArg (· ++ contents (tag.pattern.pieces z)) hplain
  simp only [lifting, Piece.fillFrom_pieces_append hskip, hcontents, codes_append, hms,
    List.append_nil]

theorem lifting_code {raw : Text} (h : CodeText raw) (ns : List Node) :
    lifting.Turns ns [.code raw] ("[code]".toList ++ raw ++ "[/code]".toList)
      (placeholder (codes ns).length) := by
  intro z
  have hclose := nearest?_append_of_none h.unclosed (a := "[/code]".toList)
    (stops_of_clashesAll (by decide)) (by decide) z
  have hread : tag.pattern.read? ("[code]".toList ++ (raw ++ ("[/code]".toList ++ z))) =
      some (⟨"[code]".toList, [], raw, "[/code]".toList⟩, z) :=
    readPair?_of_nearest (o := "[code]".toList) (by decide) hclose
  have hcodes : codes (ns ++ [.code raw]) = codes ns ++ [raw] := codes_append ns [.code raw]
  simp only [lifting, List.append_assoc]
  rw [Pattern.pieces_of_read hread, hcodes, List.length_append, List.append_assoc]
  rfl

theorem foreign_tag : tag.Foreign := by
  unfold TagPair.Foreign
  decide

theorem lifting_restyles (all : List Node) :
    lifting.Restyles o all Style.source (Style.staged o flag [] false) where
  text _ _ hs := lifting_skips rfl hs.skips
  code ns _ _ hraw := lifting_code hraw ns
  item _ := ⟨lifting_skips rfl (skips_of_avoids (by decide)), .nil _ _⟩
  element ns e body he _ _ hb := by
    obtain ⟨hopen, hclose⟩ := foreign_tag.1 e.kind (Kind.mem_all _)
    obtain ⟨hbefore, hafter⟩ : (Style.staged o flag [] false).before ns e =
          Style.source.before ns e ∧
        (Style.staged o flag [] false).after ns e = Style.source.after ns e :=
      Style.staged_of_not_mem List.not_mem_nil ns
    rw [hbefore, hafter]
    exact .element (lifting_skips rfl (Element.skips_source_before he hopen ns)) hb
      (lifting_skips rfl (Kind.skips_closer hclose))

theorem Unreserved.of_plain {s : Text} (h : ∀ c ∈ s, isPlain c = true) : Unreserved s := by
  intro c hc
  obtain ⟨-, -, -, -, -, -, h1, h2⟩ := ne_of_isPlain (h c hc)
  simp [isReserved, h1, h2]

theorem unreserved_source (hd : d.Valid o) (ns : List Node) :
    Unreserved (Style.source.write ns d) := by
  have htag : ∀ k ∈ Kind.all, Unreserved k.opener ∧ Unreserved k.tail ∧ Unreserved k.closer := by
    decide
  have hopen : Unreserved "[code]".toList := by decide
  have hclose : Unreserved "[/code]".toList := by decide
  have hmarker : Unreserved "[*]".toList := by decide
  have hnil : Unreserved [] := by decide
  refine Style.write_closed hnil Unreserved.append (fun s hs => .of_plain hs.plain)
    (fun _ raw hraw => (hopen.append hraw.unreserved).append hclose) (fun ns e _ he => ?_)
    (fun _ => ⟨hmarker, hnil⟩) hd ns
  obtain ⟨h1, h2, h3⟩ := htag e.kind (Kind.mem_all _)
  exact ⟨(h1.append (.of_plain he.value.plain)).append h2, h3⟩

theorem strip_eq_self {s : Text} (h : Unreserved s) : strip s = s := by
  refine List.filter_eq_self.2 fun c hc => ?_
  rw [h c hc]
  rfl

/-- What is left of a tree when its code regions are lifted out. -/
theorem protect_source (ho : o.Plain) {d : Doc .flow} (hd : d.Valid o) (flag : Text → Bool) :
    protect d.source o.codeBlocks =
      ⟨(Style.staged o flag [] false).write [] d, codes d.nodes⟩ := by
  have hstrip : strip d.source = d.source := strip_eq_self (unreserved_source hd [])
  have hlifts : lifting.Turns [] d.nodes (Style.source.write [] d)
      ((Style.staged o flag [] false).write [] d) :=
    (lifting_restyles d.nodes).write hd List.prefix_rfl
  have hrun := hlifts []
  simp only [lifting, List.append_nil, Pattern.pieces_nil, Prod.mk.injEq] at hrun
  obtain ⟨htext, hblocks⟩ := hrun
  rw [protect, ho.nearest, hstrip]
  show Guarded.mk (Piece.fillFrom _ (codes []).length (tag.pattern.pieces d.source)).1
    (codes [] ++ contents (tag.pattern.pieces d.source)) = _
  rw [Doc.source, htext, hblocks]
  simp [Piece.onto, Piece.fillFrom, contents]

/-! ## Putting back -/

/-- The HTML of a tree holds no line break. -/
theorem nearest?_html (ho : o.Plain) (hd : d.Valid o) (ns : List Node) :
    nearest? id lineBreak ((Style.html o flag).write ns d) = none := by
  have hli : Markup "<li>".toList := .of_check (by decide)
  have hend : Markup "</li>".toList := .of_check (by decide)
  have hopen : Skips (readWord? id lineBreak) "<pre>".toList := skips_of_avoids (by decide)
  have hclose : Skips (readWord? id lineBreak) "</pre>".toList := skips_of_avoids (by decide)
  have hcode : ∀ raw : Text, Skips (readWord? id lineBreak) raw.trimNewlines.escape := by
    refine fun raw => skips_of_head_ne fun c hc heq => ?_
    have hlt : c = '<' := heq
    exact Text.not_mem_escape _ (hlt ▸ hc)
  have hskip : Skips (readWord? id lineBreak) ((Style.html o flag).write ns d) :=
    Style.write_closed trivial Skips.append (fun s hs => hs.unbroken.word)
      (fun _ raw _ => (hopen.append (hcode raw)).append hclose)
      (fun ns e _ he => ⟨(Element.markup_before ho he flag ns).unbroken,
        (Element.markup_after he ns).unbroken⟩)
      (fun _ => ⟨hli.unbroken, hend.unbroken⟩) hd ns
  exact nearest?_eq_none_of_skips hskip

theorem dropBreaks_of_nearest? {s : Text} (h : nearest? id lineBreak s = none) :
    dropBreaks s = s :=
  Pattern.Misses.substitute (fun _ ht => Rule.readTagBreak?_of_nearest? h ht) _

/-- Replacing all placeholders at once. -/
def restoring (blocks : List Text) : Pass Text where
  run _ := (placeholders blocks.length).substitute fun k => codeBlock (blocks.getD k [])
  onto x r := x ++ r
  onto_nil _ := rfl
  onto_append x y r := List.append_assoc x y r

theorem restoring_skips {blocks : List Text} {x : Text} (h : Unreserved x) (ns ms : List Node) :
    (restoring blocks).Turns ns ms x x :=
  fun _ => Pattern.substitute_append (skips_placeholders h) _

/-- A placeholder is replaced by the code block of the region that it stands for. -/
theorem restoring_code {all ns : List Node} {raw : Text} (h : ns ++ [.code raw] <+: all) :
    (restoring (codes all)).Turns ns [.code raw] (placeholder (codes ns).length)
      ("<pre>".toList ++ raw.trimNewlines.escape ++ "</pre>".toList) := by
  obtain ⟨ms, rfl⟩ := h
  have hlt : (codes ns).length < (codes (ns ++ [.code raw] ++ ms)).length := by
    rw [codes_append, codes_append]
    simp [codes]
  have hget : (codes (ns ++ [.code raw] ++ ms)).getD (codes ns).length [] = raw := by
    rw [codes_append, codes_append]
    simp [codes]
  intro z
  have hread : (placeholders (codes (ns ++ [.code raw] ++ ms)).length).read?
      (placeholder (codes ns).length ++ z) = some (_, _) :=
    readPlaceholder?_eq_some.2 ⟨hlt, rfl⟩
  simp only [restoring]
  rw [Pattern.substitute_of_read hread, hget, codeBlock, Text.trimBreaks_escape]
  rfl

section

variable {done : List Kind} (hall : ∀ k, k ∈ done)

include hall

theorem restoring_restyles (ho : o.Plain) (all : List Node) :
    (restoring (codes all)).Restyles o all (Style.staged o flag done true) (Style.html o flag) where
  text _ _ hs := restoring_skips (.of_plain hs.plain) _ _
  code _ _ hmem _ := restoring_code hmem
  item ns := by
    have hopen : Unreserved "<li>".toList := by decide
    have hclose : Unreserved "</li>".toList := by decide
    exact ⟨restoring_skips hopen ns [], restoring_skips hclose ns []⟩
  element ns e body he _ _ hb := by
    obtain ⟨hbefore, hafter⟩ : (Style.staged o flag done true).before ns e = e.before o flag ns ∧
        (Style.staged o flag done true).after ns e = e.after ns := Style.staged_of_mem (hall _) ns
    rw [hbefore, hafter]
    exact .element (restoring_skips (Element.markup_before ho he flag ns).unreserved _ _) hb
      (restoring_skips (Element.markup_after he ns).unreserved _ _)

/-- Putting back the code regions of a tree whose elements are all HTML. -/
theorem restore_staged (ho : o.Plain) {d : Doc .flow} (hd : d.Valid o) :
    restore (codes d.nodes) ((Style.staged o flag done true).write [] d) = d.html o flag := by
  have hturns : (restoring (codes d.nodes)).Turns [] d.nodes
      ((Style.staged o flag done true).write [] d) ((Style.html o flag).write [] d) :=
    (restoring_restyles hall ho d.nodes).write hd List.prefix_rfl
  have hsub : (placeholders (codes d.nodes).length).substitute
      (fun k => codeBlock ((codes d.nodes).getD k []))
      ((Style.staged o flag done true).write [] d ++ []) = d.html o flag := by
    refine (hturns []).trans ?_
    simp only [restoring, Pattern.substitute_nil, List.append_nil, Doc.html]
  rw [List.append_nil] at hsub
  have hblocks : ∀ b ∈ codes d.nodes, Unreserved b := by
    intro b hb
    have hmem : b ∈ (protect d.source o.codeBlocks).blocks := by rwa [protect_source ho hd flag]
    exact unreserved_of_mem_blocks hmem
  have hfold := (foldl_restoreOne hblocks _).trans hsub
  rw [restore_eq]
  split
  · rename_i hnil
    rw [List.isEmpty_iff.1 hnil] at hfold
    exact hfold
  · rw [hfold]
    exact dropBreaks_of_nearest? (nearest?_html ho hd [])

end

end Guarded

end BBCode
