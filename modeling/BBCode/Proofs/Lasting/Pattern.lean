import BBCode.Proofs.Guard.Bodies
import BBCode.Proofs.Template.Pattern

/-!
# BBCode.Proofs.Lasting.Pattern

Properties of texts that a render does not break. They hold of everything that is written in
printable ASCII and of texts put together, and they pass from a text to its parts, as long as no
placeholder is cut in two. A reader of markup never cuts one, because all that it looks for starts
with a character that no placeholder has.

* `Lasting`: the properties.
* `Apart`: words that are read without cutting a placeholder.
* `Clean.pieces`: a pattern that starts and stops outside of placeholders cuts a text in parts.
* `Clean.substitute`: so writing each occurrence as a text with the property keeps the property.
-/

namespace BBCode

/-- Printable ASCII, or a line feed: what all HTML of a render is written in. -/
def isPrintable (c : Char) : Bool := (' ' ≤ c && c ≤ '~') || c = '\n'

namespace Guarded

/-- The characters of placeholders. -/
def labelChars : List Char := placeholderStart :: placeholderStop :: "CODE0123456789".toList

theorem mem_labelChars_of_isDigit {c : Char} (h : c.isDigit = true) : c ∈ labelChars := by
  have hall : ∀ d ∈ "0123456789".toList, d ∈ labelChars := by decide
  exact hall c (mem_digits h)

theorem mem_labelChars_of_mem_placeholder {k : Nat} {c : Char} (h : c ∈ placeholder k) :
    c ∈ labelChars := by
  rw [placeholder_eq, label] at h
  simp only [List.mem_cons, List.mem_append, List.not_mem_nil, or_false] at h
  rcases h with rfl | (h | h) | rfl
  · simp [labelChars]
  · have hcode : ∀ d ∈ "CODE".toList, d ∈ labelChars := by decide
    exact hcode c (by simpa using h)
  · exact mem_labelChars_of_isDigit (isDigit_of_mem_decimal h)
  · simp [labelChars]

theorem isReserved_of_isPrintable {c : Char} (h : isPrintable c = true) : isReserved c = false := by
  cases hr : isReserved c with
  | false => rfl
  | true =>
    simp only [isReserved, Bool.or_eq_true, decide_eq_true_eq] at hr
    rcases hr with rfl | rfl <;> exact absurd h (by decide)

theorem unreserved_of_isPrintable {s : Text} (h : s.all isPrintable = true) : Unreserved s :=
  fun c hc => isReserved_of_isPrintable (List.all_eq_true.1 h c hc)

end Guarded

open Guarded

namespace Breaks

theorem unreserved {p : Text} (h : Breaks p) : Unreserved p := by
  induction h with
  | nil => simp [Unreserved]
  | markup _ ih => exact Unreserved.append (by decide) ih
  | lineFeed _ ih => exact Unreserved.append (s := ['\n']) (by decide) ih
  | carriageReturn _ ih => exact Unreserved.append (s := ['\r']) (by decide) ih

theorem nil_or_cons {p : Text} (h : Breaks p) : p = [] ∨ ∃ c r, p = c :: r ∧ c ∉ labelChars := by
  cases h with
  | nil => exact .inl rfl
  | @markup s _ => exact .inr ⟨'<', "br>".toList ++ s, rfl, by decide⟩
  | @lineFeed s _ => exact .inr ⟨'\n', s, rfl, by decide⟩
  | @carriageReturn s _ => exact .inr ⟨'\r', s, rfl, by decide⟩

end Breaks

/-- A property of texts that a render does not break. -/
structure Lasting (P : Text → Prop) : Prop where
  fixed : ∀ {s : Text}, s.all isPrintable = true → P s
  append : ∀ {s t : Text}, P s → P t → P (s ++ t)
  /-- In front of a character that no placeholder has, no placeholder is cut. -/
  cut : ∀ {s : Text} {c : Char} {t : Text}, c ∉ labelChars → P (s ++ c :: t) → P s ∧ P (c :: t)
  /-- Behind a text without parts of placeholders, none is cut either. -/
  split : ∀ {s t : Text}, Unreserved s → P (s ++ t) → P s ∧ P t

namespace Lasting

variable {P : Text → Prop} (hP : Lasting P) {s t : Text}

include hP

theorem nil : P [] := hP.fixed rfl

-- a literal is matched with its characters: computing them from its bytes takes far longer
theorem literal {cs : Text} (h : cs.all isPrintable = true) : P (String.ofList cs).toList := by
  rw [String.toList_ofList]
  exact hP.fixed h

theorem trimBreaks (h : P s) : P s.trimBreaks := by
  obtain ⟨p, q, hp, hq, hs⟩ := s.trimBreaks_append
  rw [hs, List.append_assoc] at h
  have h := (hP.split hp.unreserved h).2
  rcases hq.nil_or_cons with rfl | ⟨c, r, rfl, hc⟩
  · rwa [List.append_nil] at h
  · exact (hP.cut hc h).1

/-- Texts with a fixed text between them. -/
theorem joined {cs : Text} (hs : P s) (ht : P t) (h : cs.all isPrintable = true) :
    P (s ++ (String.ofList cs).toList ++ t) :=
  hP.append (hP.append hs (hP.literal h)) ht

theorem between {before after : Text} (hs : P s) (h : (before ++ after).all isPrintable = true) :
    P (Rule.between (String.ofList before) (String.ofList after) s) := by
  obtain ⟨hb, ha⟩ := Bool.and_eq_true_iff.1 (List.all_append.symm.trans h)
  exact hP.append (hP.append (hP.literal hb) hs) (hP.literal ha)

end Lasting

/-! ## Words -/

namespace Guarded

/-- A word that is read without cutting a placeholder: it holds no character that is reserved, and
it does not start with a character of placeholders. -/
structure Apart (f : Char → Char) (w : Text) : Prop where
  fixes : ∀ c, isReserved c = true → f c = c
  unreserved : Unreserved w
  head : ∃ p v, w = p :: v ∧ ∀ c ∈ labelChars, f c ≠ p

namespace Apart

variable {f : Char → Char} {w s a b r : Text}

theorem of_id {p : Char} {v : Text} (hp : p ∉ labelChars) (hw : Unreserved (p :: v)) :
    Apart id (p :: v) :=
  ⟨fun _ _ => rfl, hw, p, v, rfl, fun _ hc heq => hp (heq ▸ hc)⟩

theorem of_foldCase {p : Char} {v : Text} (hp : ∀ c ∈ labelChars, foldCase c ≠ p)
    (hw : Unreserved (p :: v)) : Apart foldCase (p :: v) := by
  refine ⟨fun c hc => ?_, hw, p, v, rfl, hp⟩
  simp only [isReserved, Bool.or_eq_true, decide_eq_true_eq] at hc
  rcases hc with rfl | rfl <;> decide

theorem of_tag (hs : Unreserved s) : Apart foldCase ('[' :: s) :=
  .of_foldCase (by decide) fun c hc => by
    rcases List.mem_cons.1 hc with rfl | hc
    · decide
    · exact hs c hc

theorem unreserved_of_map (hw : Apart f w) (ha : a.map f = w) : Unreserved a := by
  intro c hc
  cases hr : isReserved c with
  | false => rfl
  | true =>
    have hfc := hw.unreserved (f c) (ha ▸ List.mem_map_of_mem hc)
    rw [hw.fixes c hr, hr] at hfc
    cases hfc

theorem readWord?_labelChars (hw : Apart f w) {c : Char} (hc : c ∈ labelChars) (s : Text) :
    readWord? f w (c :: s) = none := by
  obtain ⟨p, v, rfl, hp⟩ := hw.head
  exact readWord?_cons_of_ne (hp c hc)

variable {P : Text → Prop}

theorem readWord? (hw : Apart f w) (hP : Lasting P) (hs : P s)
    (h : readWord? f w s = some (a, r)) : P a ∧ P r := by
  obtain ⟨ha, rfl⟩ := readWord?_eq_some.1 h
  exact hP.split (hw.unreserved_of_map ha) hs

theorem nearest? (hw : Apart f w) (hP : Lasting P) (hs : P s)
    (h : nearest? f w s = some (b, a, r)) : P b ∧ P a ∧ P r := by
  obtain ⟨rfl, ha⟩ := nearest?_append h
  obtain ⟨p, v, rfl, hp⟩ := hw.head
  cases a with
  | nil => cases ha
  | cons c a =>
    have hc : c ∉ labelChars := fun hc => hp c hc (List.cons.inj ha).1
    rw [List.append_assoc, List.cons_append] at hs
    obtain ⟨hb, hrest⟩ := hP.cut hc hs
    exact ⟨hb, hP.split (s := c :: a) (hw.unreserved_of_map ha) hrest⟩

end Apart

theorem unreserved_takeWhile {p : Char → Bool} (hp : ∀ c, isReserved c = true → p c = false)
    (s : Text) : Unreserved (s.takeWhile p) := by
  intro c hc
  have hpc := List.all_eq_true.1 (List.all_takeWhile (l := s)) c hc
  cases hr : isReserved c with
  | false => rfl
  | true =>
    rw [hp c hr] at hpc
    cases hpc

theorem isBlank_of_isReserved {c : Char} (h : isReserved c = true) : isBlank c = false := by
  simp only [isReserved, Bool.or_eq_true, decide_eq_true_eq] at h
  rcases h with rfl | rfl <;> decide

end Guarded

/-! ## Patterns -/

section

variable {P : Text → Prop} {α β : Type} {G : α → Prop} {p : Pattern Char α}

/-- Pieces that make up texts with a property, and occurrences with another between them. -/
inductive PiecesOf (P : Text → Prop) (G : α → Prop) : List (Piece Char α) → Prop
  | plain {s : Text} (hs : P s) : PiecesOf P G (s.map .plain)
  | found {s : Text} {a : α} {ps : List (Piece Char α)} (hs : P s) (ha : G a)
      (hps : PiecesOf P G ps) : PiecesOf P G (s.map .plain ++ .found a :: ps)

theorem PiecesOf.fillFrom (hP : Lasting P) {ps : List (Piece Char α)} (h : PiecesOf P G ps)
    {f : Nat → α → Text} (hf : ∀ i a, G a → P (f i a)) (i : Nat) : P (Piece.fillFrom f i ps).1 := by
  induction h generalizing i with
  | @plain s hs =>
    rw [← List.append_nil (s.map Piece.plain), Piece.fillFrom_plain, Piece.fillFrom,
      List.append_nil]
    exact hs
  | found hs ha _ ih =>
    rw [Piece.fillFrom_plain]
    exact hP.append hs (hP.append (hf i _ ha) (ih (i + 1)))

/-- A pattern that never cuts a placeholder: no occurrence starts in one, and where one is found it
has a property and so has the text behind it. -/
structure Clean (P : Text → Prop) (G : α → Prop) (p : Pattern Char α) : Prop where
  starts : ∀ c ∈ labelChars, ∀ s, p.read? (c :: s) = none
  cuts : ∀ {s a r}, P s → p.read? s = some (a, r) → G a ∧ P r

namespace Clean

theorem pieces (hp : Clean P G p) (hP : Lasting P) {s : Text} (hs : P s) :
    PiecesOf P G (p.pieces s) := by
  -- the characters since the last occurrence are one text
  have hall : ∀ x, P (x ++ s) → PiecesOf P G (x.map .plain ++ p.pieces s) := by
    clear hs
    fun_induction Pattern.pieces p s with
    | case1 =>
      intro x hx
      rw [List.append_nil] at hx ⊢
      exact .plain hx
    | case2 c s a r hr ih =>
      intro x hx
      have hc : c ∉ labelChars := fun hc => by
        rw [hp.starts c hc s] at hr
        cases hr
      obtain ⟨hx, hs⟩ := hP.cut hc hx
      obtain ⟨ha, hrest⟩ := hp.cuts hs hr
      exact .found hx ha (ih [] hrest)
    | case3 c s hn ih =>
      intro x hx
      have hx' := ih (x ++ [c]) (by simpa using hx)
      simpa using hx'
  exact hall [] hs

theorem fillFrom (hp : Clean P G p) (hP : Lasting P) {f : Nat → α → Text}
    (hf : ∀ i a, G a → P (f i a)) {s : Text} (hs : P s) (i : Nat) :
    P (Piece.fillFrom f i (p.pieces s)).1 :=
  (hp.pieces hP hs).fillFrom hP hf i

theorem substitute (hp : Clean P G p) (hP : Lasting P) {f : α → Text} (hf : ∀ a, G a → P (f a))
    {s : Text} (hs : P s) : P (p.substitute f s) := by
  have hfill := hp.fillFrom hP (f := fun _ => f) (fun _ => hf) hs 0
  rwa [Piece.fillFrom_const] at hfill

theorem map (hp : Clean P G p) {g : α → β} {H : β → Prop} (hg : ∀ a, G a → H (g a)) :
    Clean P H (p.map g) where
  starts c hc s := by
    show (p.read? (c :: s)).map _ = none
    rw [hp.starts c hc s]
    rfl
  cuts hs h := by
    simp only [Pattern.map, Option.map_eq_some_iff, Prod.mk.injEq] at h
    obtain ⟨⟨a, r⟩, hr, rfl, rfl⟩ := h
    obtain ⟨ha, hrest⟩ := hp.cuts hs hr
    exact ⟨hg a ha, hrest⟩

theorem word (hP : Lasting P) {f : Char → Char} {w : Text} (hw : Apart f w) (hne : w ≠ []) :
    Clean P P (Pattern.word f w hne) where
  starts _ hc s := hw.readWord?_labelChars hc s
  cuts hs h := hw.readWord? hP hs h

theorem tagBreak (hP : Lasting P) {tag : Text} (ht : Apart id tag) :
    Clean P (fun _ => True) (Rule.tagBreak tag) where
  starts c hc s := by
    show Rule.readTagBreak? tag (c :: s) = none
    rw [Rule.readTagBreak?, ht.readWord?_labelChars hc]
  cuts {s a r} hs h := by
    have h : Rule.readTagBreak? tag s = some (a, r) := h
    have hbreak : Apart id lineBreak := .of_id (by decide) (by decide)
    unfold Rule.readTagBreak? at h
    split at h
    · cases h
    · rename_i w q hq
      simp only [Option.map_eq_some_iff, Prod.mk.injEq] at h
      obtain ⟨x, hx, -, rfl⟩ := h
      have hrest := (ht.readWord? hP hs hq).2
      rw [← List.takeWhile_append_dropWhile (p := isBlank) (l := q)] at hrest
      have hrest := (hP.split (unreserved_takeWhile (fun _ => isBlank_of_isReserved) q) hrest).2
      exact ⟨trivial, (hbreak.readWord? hP hrest hx).2⟩

end Clean

end

end BBCode
