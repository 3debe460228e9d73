import BBCode.Proofs.Text.Skip
import BBCode.Proofs.Text.Trim

/-!
# BBCode.Proofs.Template.Text

Families of texts that differ in some slots only. A template is a text with slots; a family is
templated if one template makes all its members. Reading from the members of a templated family
goes the same way for all of them, as long as no reading starts in a slot or runs into one.

* `readWord?_templated`, `nearest?_templated`, `takeWhile_templated`: reading a word, searching
  for one, taking characters of a class.
* `trimBreaks_templated`: trimming line breaks.
-/

namespace BBCode

inductive Glyph (σ : Type) where
  | char (c : Char)
  | slot (a : σ)
  deriving DecidableEq, Repr

abbrev Template (σ : Type) := List (Glyph σ)

namespace Template

variable {σ τ : Type}

def Glyph.fill (f : σ → Text) : Glyph σ → Text
  | .char c => [c]
  | .slot a => f a

/-- The text that a template makes when its slots are filled by `f`. -/
def fill (f : σ → Text) (t : Template σ) : Text := t.flatMap (Glyph.fill f)

/-- A template without slots. -/
def const (s : Text) : Template σ := s.map Glyph.char

@[simp] theorem fill_nil (f : σ → Text) : fill f [] = [] := rfl

@[simp] theorem fill_char (f : σ → Text) (c : Char) (t : Template σ) :
    fill f (.char c :: t) = c :: fill f t := rfl

@[simp] theorem fill_slot (f : σ → Text) (a : σ) (t : Template σ) :
    fill f (.slot a :: t) = f a ++ fill f t := rfl

@[simp] theorem fill_append (f : σ → Text) (t u : Template σ) :
    fill f (t ++ u) = fill f t ++ fill f u := by
  simp [fill]

@[simp] theorem fill_const (f : σ → Text) (s : Text) : fill f (const s) = s := by
  induction s with
  | nil => rfl
  | cons c s ih =>
    show c :: fill f (const s) = c :: s
    rw [ih]

theorem fill_reverse (f : σ → Text) (t : Template σ) :
    fill (fun a => (f a).reverse) t.reverse = (fill f t).reverse := by
  induction t with
  | nil => rfl
  | cons g t ih =>
    rw [List.reverse_cons, fill_append, ih]
    cases g <;> simp

end Template

/-- All texts of the family are made by one template, whose slots `φ` fills. -/
def Templated {V σ : Type} (φ : V → σ → Text) (x : V → Text) : Prop :=
  ∃ t : Template σ, ∀ v, x v = Template.fill (φ v) t

namespace Templated

variable {V σ : Type} {φ : V → σ → Text} {x y : V → Text}

theorem of_const (s : Text) : Templated φ fun _ => s :=
  ⟨.const s, fun v => by simp⟩

theorem of_slot (a : σ) : Templated φ fun v => φ v a :=
  ⟨[.slot a], fun v => by simp⟩

theorem append (hx : Templated φ x) (hy : Templated φ y) : Templated φ fun v => x v ++ y v := by
  obtain ⟨t, ht⟩ := hx
  obtain ⟨u, hu⟩ := hy
  exact ⟨t ++ u, fun v => by simp [ht, hu]⟩

theorem cons (c : Char) (hx : Templated φ x) : Templated φ fun v => c :: x v :=
  append (of_const [c]) hx

theorem of_eq (hx : Templated φ x) (h : ∀ v, y v = x v) : Templated φ y := by
  obtain ⟨t, ht⟩ := hx
  exact ⟨t, fun v => by rw [h, ht]⟩

theorem flatMap {α : Type} {f : α → V → Text} (as : List α) (h : ∀ a ∈ as, Templated φ (f a)) :
    Templated φ fun v => as.flatMap fun a => f a v := by
  induction as with
  | nil => exact of_const []
  | cons a as ih => exact (h a (by simp)).append (ih fun b hb => h b (by simp [hb]))

theorem reverse (hx : Templated φ x) :
    Templated (fun v a => (φ v a).reverse) fun v => (x v).reverse := by
  obtain ⟨t, ht⟩ := hx
  exact ⟨t.reverse, fun v => by simp only [ht, ← Template.fill_reverse]⟩

theorem of_reverse (hx : Templated (fun v a => (φ v a).reverse) x) :
    Templated φ fun v => (x v).reverse := by
  obtain ⟨t, ht⟩ := hx
  refine ⟨t.reverse, fun v => ?_⟩
  simp only [ht, ← Template.fill_reverse, List.reverse_reverse]

end Templated

section Reading

variable {V σ : Type} {φ : V → σ → Text} {x : V → Text} {f : Char → Char} {w : Text}

theorem readWord?_templated (h : ∀ v a, Stops f (φ v a) w) (hx : Templated φ x) :
    (∀ v, readWord? f w (x v) = none) ∨
      ∃ a r, Templated φ r ∧ ∀ v, readWord? f w (x v) = some (a, r v) := by
  obtain ⟨t, ht⟩ := hx
  simp only [ht]
  clear ht
  induction w generalizing t with
  | nil => exact .inr ⟨[], fun v => Template.fill (φ v) t, ⟨t, fun v => rfl⟩, fun v => rfl⟩
  | cons p w ih =>
    cases t with
    | nil => exact .inl fun v => rfl
    | cons g t =>
      cases g with
      | slot a => exact .inl fun v => (h v a).1 _
      | char c =>
        by_cases hc : f c = p
        · rcases ih (fun v a => (h v a).2) t with hn | ⟨a, r, hr, hs⟩
          · left
            intro v
            simp [readWord?, hc, hn v]
          · refine .inr ⟨c :: a, r, hr, fun v => ?_⟩
            simp [readWord?, hc, hs v]
        · exact .inl fun v => readWord?_cons_of_ne hc

theorem nearest?_templated (h : ∀ v a, Stops f (φ v a) w ∧ Skips (readWord? f w) (φ v a))
    (hx : Templated φ x) :
    (∀ v, nearest? f w (x v) = none) ∨
      ∃ b a r, Templated φ b ∧ Templated φ r ∧ ∀ v, nearest? f w (x v) = some (b v, a, r v) := by
  obtain ⟨t, ht⟩ := hx
  simp only [ht]
  clear ht
  have hread : ∀ u : Template σ, _ := fun u =>
    readWord?_templated (x := fun v => Template.fill (φ v) u) (fun v a => (h v a).1) ⟨u, fun v => rfl⟩
  induction t with
  | nil =>
    rcases hread [] with hn | ⟨a, r, hr, hs⟩
    · left
      intro v
      have hv : readWord? f w [] = none := hn v
      simp [nearest?, hv]
    · refine .inr ⟨fun _ => [], a, r, .of_const [], hr, fun v => ?_⟩
      have hv : readWord? f w [] = some (a, r v) := hs v
      simp [nearest?, hv]
  | cons g t ih =>
    cases g with
    | slot a =>
      rcases ih with hn | ⟨b, s, r, hb, hr, hs⟩
      · left
        intro v
        rw [Template.fill_slot, nearest?_append_of_skips (h v a).2, hn v]
        rfl
      · refine .inr ⟨fun v => φ v a ++ b v, s, r, (Templated.of_slot a).append hb, hr, fun v => ?_⟩
        rw [Template.fill_slot, nearest?_append_of_skips (h v a).2, hs v]
        rfl
    | char c =>
      rcases hread (.char c :: t) with hn | ⟨a, r, hr, hs⟩
      · have hstep : ∀ v, nearest? f w (Template.fill (φ v) (.char c :: t)) =
            (nearest? f w (Template.fill (φ v) t)).map fun q => (c :: q.1, q.2) := by
          intro v
          have hv := hn v
          rw [Template.fill_char] at hv ⊢
          rw [nearest?, hv]
        rcases ih with hn' | ⟨b, s, r, hb, hr, hs⟩
        · left
          intro v
          rw [hstep v, hn' v]
          rfl
        · refine .inr ⟨fun v => c :: b v, s, r, hb.cons c, hr, fun v => ?_⟩
          rw [hstep v, hs v]
          rfl
      · refine .inr ⟨fun _ => [], a, r, .of_const [], hr, fun v => ?_⟩
        exact nearest?_of_read (hs v)

/-- Taking characters of a class ends at the latest where a slot starts. -/
theorem takeWhile_templated {p : Char → Bool} (h : ∀ v a, ∃ c s, φ v a = c :: s ∧ p c = false)
    (hx : Templated φ x) :
    ∃ n r, Templated φ r ∧ ∀ v, (x v).takeWhile p = n ∧ (x v).dropWhile p = r v := by
  obtain ⟨t, ht⟩ := hx
  simp only [ht]
  clear ht
  induction t with
  | nil => exact ⟨[], fun _ => [], .of_const [], fun v => ⟨rfl, rfl⟩⟩
  | cons g t ih =>
    cases g with
    | slot a =>
      refine ⟨[], fun v => φ v a ++ Template.fill (φ v) t, ⟨.slot a :: t, fun v => rfl⟩, fun v => ?_⟩
      obtain ⟨c, s, hs, hc⟩ := h v a
      simp [hs, hc]
    | char c =>
      cases hc : p c with
      | false =>
        refine ⟨[], fun v => c :: Template.fill (φ v) t, ⟨.char c :: t, fun v => rfl⟩, fun v => ?_⟩
        simp [hc]
      | true =>
        obtain ⟨n, r, hr, hs⟩ := ih
        refine ⟨c :: n, r, hr, fun v => ?_⟩
        simp [hc, hs v]

/-- A templated family either starts with one character, or nowhere with one outside a slot. -/
theorem templated_cases (hx : Templated φ x) :
    (∀ v, x v = []) ∨ (∃ c r, Templated φ r ∧ ∀ v, x v = c :: r v) ∨
      ∃ a r, Templated φ r ∧ ∀ v, x v = φ v a ++ r v := by
  obtain ⟨t, ht⟩ := hx
  cases t with
  | nil => exact .inl ht
  | cons g t =>
    cases g with
    | char c => exact .inr (.inl ⟨c, fun v => Template.fill (φ v) t, ⟨t, fun v => rfl⟩, ht⟩)
    | slot a => exact .inr (.inr ⟨a, fun v => Template.fill (φ v) t, ⟨t, fun v => rfl⟩, ht⟩)

/-! ## Slots that no reading touches -/

/-- The characters that stand nowhere in a slot but at its start. -/
def bars : List Char := ['<', '[', ']', '\n', '\r', 'h', '\ue000', '\ue001']

/-- A character that a slot can hold between its ends. -/
def isQuiet (c : Char) : Bool :=
  c ≠ '>' && !bars.contains c && !bars.contains (foldCase c)

/-- The opening tag of an element that no reading looks for, its last attribute quoted. -/
def Sealed (s : Text) : Prop :=
  ∃ m, s = ['<', 'd'] ++ (m ++ ['"', '>']) ∧ ∀ c ∈ m, isQuiet c = true

/-- Whether a word starts neither with what a slot starts with nor with what it holds. -/
def passes (f : Char → Char) (w : Text) : Bool :=
  avoids f w ['<', 'd'] &&
    match w with
    | p :: q :: _ => bars.contains p || (p ≠ '>' && bars.contains q)
    | [p] => bars.contains p
    | [] => false

theorem Sealed.stops {s : Text} (hs : Sealed s) (hw : clashesAll f ['<', 'd'] w = true) :
    Stops f s w := by
  obtain ⟨m, rfl, -⟩ := hs
  exact (stops_of_clashesAll hw).append _

theorem Sealed.dropLast_append {s : Text} (hs : Sealed s) :
    s.dropLast ++ ['>'] = s ∧ '>' ∉ s.dropLast := by
  obtain ⟨m, rfl, hm⟩ := hs
  have hlast : ['<', 'd'] ++ (m ++ ['"', '>']) = (['<', 'd'] ++ (m ++ ['"'])) ++ ['>'] := by simp
  rw [hlast, List.dropLast_concat]
  refine ⟨rfl, fun hc => ?_⟩
  simp only [List.mem_append, List.mem_cons, List.not_mem_nil, or_false] at hc
  rcases hc with (hc | hc) | hc | hc
  · exact absurd hc (by decide)
  · exact absurd hc (by decide)
  · exact absurd (hm _ hc) (by decide)
  · exact absurd hc (by decide)

theorem skips_of_second_ne {p q z : Char} {y : Text} (h : ∀ c ∈ y, f c ≠ q) (hz : f z ≠ p)
    (hzq : f z ≠ q) : Skips (readWord? f (p :: q :: w)) (y ++ [z]) := by
  induction y with
  | nil => exact ⟨fun r => readWord?_cons_of_ne hz, trivial⟩
  | cons c y ih =>
    refine ⟨fun r => ?_, ih fun d hd => h d (by simp [hd])⟩
    rw [readWord?]
    split
    · have hnext : readWord? f (q :: w) (y ++ [z] ++ r) = none := by
        cases y with
        | nil => exact readWord?_cons_of_ne hzq
        | cons d y => exact readWord?_cons_of_ne (h d (by simp))
      exact Option.map_eq_none_iff.2 hnext
    · rfl

theorem Sealed.skips {s : Text} (hs : Sealed s) (hf : f = id ∨ f = foldCase)
    (hw : passes f w = true) : Skips (readWord? f w) s := by
  obtain ⟨m, rfl, hm⟩ := hs
  simp only [passes, Bool.and_eq_true] at hw
  -- behind the start of the slot the fold of no character is a bar
  have hrest : ∀ c ∈ m ++ ['"'], f c ∉ bars := by
    intro c hc hbar
    rcases List.mem_append.1 hc with hc | hc
    · have hq := hm c hc
      simp only [isQuiet, Bool.and_eq_true, Bool.not_eq_true', List.contains_eq_mem,
        decide_eq_false_iff_not] at hq
      rcases hf with rfl | rfl
      · exact hq.1.2 hbar
      · exact hq.2 hbar
    · rw [List.mem_singleton.1 hc] at hbar
      rcases hf with rfl | rfl <;> exact absurd hbar (by decide)
  have hlast : f '>' = '>' := by
    rcases hf with rfl | rfl <;> decide
  refine (skips_of_avoids hw.1).append ?_
  have htail : m ++ ['"', '>'] = (m ++ ['"']) ++ ['>'] := by simp
  have hbar : ∀ p, p ∈ bars → ∀ c ∈ (m ++ ['"']) ++ ['>'], f c ≠ p := by
    rintro p hp c hc rfl
    rcases List.mem_append.1 hc with hc | hc
    · exact hrest c hc hp
    · rw [List.mem_singleton.1 hc, hlast] at hp
      exact absurd hp (by decide)
  rw [htail]
  obtain ⟨-, hw⟩ := hw
  match w, hw with
  | [p], hw => exact skips_of_head_ne (hbar p (by simpa using hw))
  | p :: q :: w, hw =>
    simp only [Bool.or_eq_true, Bool.and_eq_true, List.contains_eq_mem, decide_eq_true_eq] at hw
    rcases hw with hp | ⟨hp, hq⟩
    · exact skips_of_head_ne (hbar p hp)
    · have hpq : f '>' ≠ p := by
        rw [hlast]
        exact Ne.symm hp
      have hall := hbar q hq
      exact skips_of_second_ne (fun c hc => hall c (List.mem_append_left _ hc)) hpq (hall '>' (by simp))

/-! ## Line breaks -/

/-- Reading breaks off the front as long as there are any. -/
theorem strip_templated {p : Char} {F : Text → Text}
    (hF : ∀ s, F s = match Text.readBreak? (p :: w) s with | some r => F r | none => s) (v₀ : V)
    (hw : ∀ v a, Stops id (φ v a) (p :: w))
    (hn : ∀ v a, ∃ c s, φ v a = c :: s ∧ isNewline c = false) (hx : Templated φ x) :
    Templated φ fun v => F (x v) := by
  induction hlen : (x v₀).length using Nat.strongRecOn generalizing x with
  | ind len ih =>
    subst hlen
    -- one break, read from all members or from none
    have hread : (∀ v, Text.readBreak? (p :: w) (x v) = none) ∨
        ∃ r, Templated φ r ∧ ∀ v, Text.readBreak? (p :: w) (x v) = some (r v) := by
      rcases readWord?_templated hw hx with hnone | ⟨a, r, hr, hs⟩
      · rcases templated_cases hx with h0 | ⟨c, r, hr, hs⟩ | ⟨a, r, hr, hs⟩
        · left
          intro v
          simp [Text.readBreak?, readWord?, h0 v]
        · cases hc : isNewline c with
          | true =>
            refine .inr ⟨r, hr, fun v => ?_⟩
            have hv := hnone v
            rw [hs v] at hv ⊢
            simp [Text.readBreak?, hv, hc]
          | false =>
            left
            intro v
            have hv := hnone v
            rw [hs v] at hv ⊢
            simp [Text.readBreak?, hv, hc]
        · left
          intro v
          have hv := hnone v
          obtain ⟨c, s, hcs, hc⟩ := hn v a
          rw [hs v, hcs] at hv ⊢
          rw [List.cons_append] at hv ⊢
          simp [Text.readBreak?, hv, hc]
      · refine .inr ⟨r, hr, fun v => ?_⟩
        simp [Text.readBreak?, hs v]
    rcases hread with hnone | ⟨r, hr, hs⟩
    · refine hx.of_eq fun v => ?_
      rw [hF, hnone v]
    · refine (ih (r v₀).length (Text.readBreak?_length (hs v₀)) hr rfl).of_eq fun v => ?_
      rw [hF, hs v]

theorem trimBreaks_templated (hφ : ∀ v a, Sealed (φ v a)) (v₀ : V) (hx : Templated φ x) :
    Templated φ fun v => (x v).trimBreaks := by
  have hstart : Templated φ fun v => (x v).trimStart := by
    refine strip_templated Text.trimStart_eq v₀ (fun v a => (hφ v a).stops (by decide)) ?_ hx
    intro v a
    obtain ⟨m, hm, -⟩ := hφ v a
    exact ⟨'<', _, hm, by decide⟩
  -- the end of a slot, read backwards
  have hrev : ∀ v a, ∃ s, (φ v a).reverse = ['>', '"'] ++ s := by
    intro v a
    obtain ⟨m, hm, -⟩ := hφ v a
    exact ⟨(['<', 'd'] ++ m).reverse, by simp [hm]⟩
  have hstop : Templated (fun v a => (φ v a).reverse) 
      fun v => Text.trimReversed (x v).trimStart.reverse := by
    refine strip_templated Text.trimReversed_eq v₀ (fun v a => ?_) (fun v a => ?_) hstart.reverse
    · obtain ⟨s, hs⟩ := hrev v a
      have hbase : Stops id ['>', '"'] lineBreak.reverse := stops_of_clashesAll (by decide)
      show Stops id (φ v a).reverse _
      rw [hs]
      exact hbase.append s
    · obtain ⟨s, hs⟩ := hrev v a
      exact ⟨'>', _, hs, by decide⟩
  exact hstop.of_reverse

end Reading

end BBCode
