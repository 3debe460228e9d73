import BBCode.Proofs.Lasting.Steps

/-!
# BBCode.Proofs.Alphabet

Which characters a page is written with. A render copies characters of the document and of the
address of profiles, and writes some of its own: printable ASCII characters, line feeds and what
placeholders are made of. No step makes up any other.

* `Alphabet.lasting`: no step leaves an alphabet.
* `Alphabet.spells_protect`, `Alphabet.spells_restore`: neither do the code regions.
* `Alphabet.spells_html`: so a page is within every alphabet that the document is within.
-/

namespace BBCode

open Guarded

/-- A character that a render writes of its own accord: printable ASCII, a line feed, or a
character that only placeholders hold. -/
def isOwn (c : Char) : Bool := isPrintable c || isReserved c

/-- Characters to write with, among them those that a render writes of its own accord. -/
structure Alphabet where
  has : Char → Prop
  own : ∀ c, isOwn c = true → has c

namespace Alphabet

variable {A : Alphabet} {α β : Type}

/-- All characters of a text are in the alphabet. -/
def Spells (A : Alphabet) (s : Text) : Prop := ∀ c ∈ s, A.has c

/-! ## Texts -/

theorem spells_nil : A.Spells [] := fun _ hc => by cases hc

theorem fixed {s : Text} (h : s.all isOwn = true) : A.Spells s :=
  fun c hc => A.own c (List.all_eq_true.1 h c hc)

namespace Spells

variable {s t : Text}

theorem append (hs : A.Spells s) (ht : A.Spells t) : A.Spells (s ++ t) := by
  intro c hc
  rcases List.mem_append.1 hc with hc | hc
  · exact hs c hc
  · exact ht c hc

theorem of_subset (ht : A.Spells t) (h : s ⊆ t) : A.Spells s := fun c hc => ht c (h hc)

theorem left (h : A.Spells (s ++ t)) : A.Spells s := h.of_subset (List.subset_append_left s t)

theorem right (h : A.Spells (s ++ t)) : A.Spells t := h.of_subset (List.subset_append_right s t)

theorem escape (h : A.Spells s) : A.Spells s.escape := by
  intro d hd
  obtain ⟨c, hc, hd⟩ := List.mem_flatMap.1 hd
  rcases Text.escapeChar_cases c with he | he | he | ⟨he, -, -⟩ <;> rw [he] at hd
  · exact (fixed (by decide) : A.Spells _) d hd
  · exact (fixed (by decide) : A.Spells _) d hd
  · exact (fixed (by decide) : A.Spells _) d hd
  · rw [List.mem_singleton.1 hd]
    exact h c hc

end Spells

theorem lasting (A : Alphabet) : Lasting A.Spells where
  fixed h c hc := A.own c (by simp [isOwn, List.all_eq_true.1 h c hc])
  append hs ht := hs.append ht
  cut _ h := ⟨h.left, h.right⟩
  split _ h := ⟨h.left, h.right⟩

theorem spells_placeholder (k : Nat) : A.Spells (placeholder k) :=
  .append (.append (s := placeholderStart :: "CODE".toList) (fixed (by decide)) (A.lasting.number k))
    (fixed (by decide))

/-! ## Patterns -/

/-- A pattern that in a text within the alphabet finds things of which `G` holds, with a text
within the alphabet after them. -/
def Finds (A : Alphabet) (G : α → Prop) (p : Pattern Char α) : Prop :=
  ∀ {s a r}, A.Spells s → p.read? s = some (a, r) → G a ∧ A.Spells r

/-- A character of the alphabet, or an occurrence of which `G` holds. -/
def SpellsPiece (A : Alphabet) (G : α → Prop) : Piece Char α → Prop
  | .plain c => A.has c
  | .found a => G a

theorem spells_fillFrom {G : α → Prop} {f : Nat → α → Text}
    (hf : ∀ n a, G a → A.Spells (f n a)) {ps : List (Piece Char α)}
    (h : ∀ p ∈ ps, A.SpellsPiece G p) (n : Nat) : A.Spells (Piece.fillFrom f n ps).1 := by
  induction ps generalizing n with
  | nil => exact spells_nil
  | cons p ps ih =>
    obtain ⟨hp, hps⟩ := List.forall_mem_cons.1 h
    cases p with
    | plain c =>
      exact Spells.append (s := [c]) (fun d hd => List.mem_singleton.1 hd ▸ hp) (ih hps n)
    | found a => exact (hf n a hp).append (ih hps (n + 1))

namespace Finds

variable {G : α → Prop} {p : Pattern Char α}

theorem pieces (hp : A.Finds G p) {s : Text} (hs : A.Spells s) :
    ∀ x ∈ p.pieces s, A.SpellsPiece G x := by
  fun_induction Pattern.pieces p s with
  | case1 => simp
  | case2 c s a r h ih =>
    obtain ⟨ha, hr⟩ := hp hs h
    exact List.forall_mem_cons.2 ⟨ha, ih hr⟩
  | case3 c s h ih =>
    obtain ⟨hc, hs⟩ := List.forall_mem_cons.1 hs
    exact List.forall_mem_cons.2 ⟨hc, ih hs⟩

theorem substitute (hp : A.Finds G p) {f : α → Text} (hf : ∀ a, G a → A.Spells (f a)) {s : Text}
    (hs : A.Spells s) : A.Spells (p.substitute f s) := by
  have hfill := spells_fillFrom (f := fun _ => f) (fun _ => hf) (hp.pieces hs) 0
  rwa [Piece.fillFrom_const] at hfill

/-- What is read and what follows spell the text. -/
theorem of_source (source : α → Text)
    (h : ∀ {s a r}, p.read? s = some (a, r) → s = source a ++ r) :
    A.Finds (fun a => A.Spells (source a)) p := by
  intro s a r hs hr
  rw [h hr] at hs
  exact ⟨hs.left, hs.right⟩

theorem word (f : Char → Char) (w : Text) (hw : w ≠ []) :
    A.Finds A.Spells (Pattern.word f w hw) :=
  of_source id fun h => (readWord?_eq_some.1 h).2

end Finds

/-! ## Pages -/

theorem finds_code (m : CodeMatching) : A.Finds (fun r => A.Spells r.source) (Guarded.pattern m) :=
  Finds.of_source Region.source read?_source

theorem spells_protect {source : Text} (hs : A.Spells source) (m : CodeMatching) :
    A.Spells (protect source m).text ∧ ∀ b ∈ (protect source m).blocks, A.Spells b := by
  have hstrip : A.Spells (strip source) := hs.of_subset List.filter_sublist.subset
  have hpieces := Finds.pieces (finds_code m) hstrip
  refine ⟨spells_fillFrom (fun k _ _ => spells_placeholder k) hpieces 0, fun b hb => ?_⟩
  obtain ⟨p, hp, hb⟩ := List.mem_filterMap.1 hb
  cases p with
  | plain c => cases hb
  | found r =>
    cases hb
    have hr : A.Spells r.source := hpieces _ hp
    exact hr.left.right

theorem spells_restore {blocks : List Text} (hb : ∀ b ∈ blocks, A.Spells b) {html : Text}
    (hs : A.Spells html) : A.Spells (restore blocks html) := by
  have hone : ∀ bs : List (Text × Nat), (∀ b ∈ bs, A.Spells b.1) → ∀ {x : Text}, A.Spells x →
      A.Spells (bs.foldl restoreOne x) := by
    intro bs
    induction bs with
    | nil => exact fun _ _ hx => hx
    | cons b bs ih =>
      intro h x hx
      obtain ⟨hb, hbs⟩ := List.forall_mem_cons.1 h
      have hblock : A.Spells (codeBlock b.1) :=
        A.lasting.between (A.lasting.trimBreaks hb.escape) (by decide)
      exact ih hbs (Finds.substitute (Finds.word _ _ _) (fun _ _ => hblock) hx)
  have hall : A.Spells (blocks.zipIdx.foldl restoreOne html) :=
    hone _ (fun b hmem => hb b.1 (List.fst_mem_of_mem_zipIdx hmem)) hs
  rw [restore_eq]
  split
  · exact hs
  · have hclean : Clean A.Spells (fun _ => True) (Rule.tagBreak "</pre>".toList) :=
      .tagBreak A.lasting (.of_id (by decide) (by decide))
    exact hclean.substitute A.lasting (fun _ _ => A.lasting.literal (by decide)) hall

/-- A page is written with the characters of its document, those of the address of profiles and
those that a render writes of its own accord. -/
theorem spells_html {o : Options} (ho : A.Spells o.profileUrl) {source : Text}
    (hs : A.Spells source) (m : WidgetMap) : A.Spells (Page.render o source m).html := by
  obtain ⟨htext, hblocks⟩ := spells_protect hs o.codeBlocks
  rw [Page.html_render]
  exact spells_restore hblocks (A.lasting.run ho htext m)

end Alphabet

end BBCode
