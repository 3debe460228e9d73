import BBCode.Proofs.Autolink.Spots
import BBCode.Proofs.Template.Rules

/-!
# BBCode.Proofs.Template.Links

Bare URLs on templated families: a URL ends at the latest where a slot starts, none starts in a
slot, and a slot ends the tag of an anchor it stands in in all members alike.

* `readSpot?_blind`: URLs, attribute values and anchors are found at the same places.
* `uniform_links`: the step that links URLs.
-/

namespace BBCode.Autolink

variable {V σ : Type} {φ : V → σ → Text} (hφ : ∀ v a, Sealed (φ v a))

include hφ

theorem stops_scheme (v : V) (a : σ) : Stops foldCase (φ v a) "https://".toList ∧
    Stops foldCase (φ v a) "http://".toList :=
  ⟨(hφ v a).stops (by decide), (hφ v a).stops (by decide)⟩

theorem readUrl?_templated {x : V → Text} (hx : Templated φ x) :
    (∀ v, readUrl? (x v) = none) ∨
      ∃ s r, Templated φ r ∧ ∀ v, readUrl? (x v) = some (s, r v) := by
  have hscheme : (∀ v, (readWord? foldCase "https://".toList (x v)).or
      (readWord? foldCase "http://".toList (x v)) = none) ∨
      ∃ s r, Templated φ r ∧ ∀ v, (readWord? foldCase "https://".toList (x v)).or
        (readWord? foldCase "http://".toList (x v)) = some (s, r v) := by
    rcases readWord?_templated (fun v a => (stops_scheme hφ v a).1) hx with hn | ⟨a, r, hr, hs⟩
    · rcases readWord?_templated (fun v a => (stops_scheme hφ v a).2) hx with hn' | ⟨a, r, hr, hs⟩
      · left
        intro v
        rw [hn v, hn' v]
        rfl
      · exact .inr ⟨a, r, hr, fun v => by rw [hn v, hs v]; rfl⟩
    · exact .inr ⟨a, r, hr, fun v => by rw [hs v]; rfl⟩
  rcases hscheme with hn | ⟨a, r, hr, hs⟩
  · left
    intro v
    simp only [readUrl?, hn v]
  · have hurl : ∀ v a, ∃ c s, φ v a = c :: s ∧ isUrlChar c = false := by
      intro v a
      obtain ⟨m, hm, -⟩ := hφ v a
      exact ⟨'<', _, hm, by decide⟩
    obtain ⟨n, q, hq, hs'⟩ := takeWhile_templated hurl hr
    cases hn : n.isEmpty with
    | true =>
      left
      intro v
      simp only [readUrl?, hs v, hs' v, hn, if_true]
    | false =>
      refine .inr ⟨a ++ n, q, hq, fun v => ?_⟩
      simp only [readUrl?, hs v, hs' v, hn, Bool.false_eq_true, if_false]

/-- The end of a tag is the nearest end in the text or the end of a slot. -/
theorem nearest?_end_templated {x : V → Text} (hx : Templated φ x) :
    (∀ v, nearest? id ['>'] (x v) = none) ∨
      ∃ (b : V → Text) (r : V → Text), Templated φ (fun v => b v ++ ['>']) ∧ Templated φ r ∧
        ∀ v, nearest? id ['>'] (x v) = some (b v, ['>'], r v) := by
  obtain ⟨t, ht⟩ := hx
  simp only [ht]
  clear ht
  induction t with
  | nil => exact .inl fun v => rfl
  | cons g t ih =>
    cases g with
    | slot a =>
      refine .inr ⟨fun v => (φ v a).dropLast, fun v => Template.fill (φ v) t, ?_,
        ⟨t, fun v => rfl⟩, fun v => ?_⟩
      · exact (Templated.of_slot a).of_eq fun v => (hφ v a).dropLast_append.1
      · obtain ⟨hend, hmem⟩ := (hφ v a).dropLast_append
        have hskip : Skips (readWord? id ['>']) (φ v a).dropLast :=
          skips_of_head_ne fun c hc heq => hmem (heq ▸ hc)
        rw [Template.fill_slot]
        conv => lhs; rw [← hend, List.append_assoc]
        exact nearest?_append_word hskip rfl
    | char c =>
      by_cases hc : c = '>'
      · subst hc
        refine .inr ⟨fun _ => [], fun v => Template.fill (φ v) t, .of_const _, ⟨t, fun v => rfl⟩,
          fun v => ?_⟩
        simp [nearest?, readWord?]
      · have hstep : ∀ v, nearest? id ['>'] (Template.fill (φ v) (.char c :: t)) =
            (nearest? id ['>'] (Template.fill (φ v) t)).map fun q => (c :: q.1, q.2) := by
          intro v
          rw [Template.fill_char, nearest?, readWord?_cons_of_ne (f := id) hc]
        rcases ih with hn | ⟨b, r, hb, hr, hs⟩
        · left
          intro v
          rw [hstep v, hn v]
          rfl
        · refine .inr ⟨fun v => c :: b v, r, hb.cons c, hr, fun v => ?_⟩
          rw [hstep v, hs v]
          rfl

theorem readAnchor?_templated {x : V → Text} (hx : Templated φ x) :
    (∀ v, readAnchor? (x v) = none) ∨
      ∃ k r, Templated φ k ∧ Templated φ r ∧ ∀ v, readAnchor? (x v) = some (k v, r v) := by
  have hstart : ∀ v a, Stops foldCase (φ v a) "<a".toList := fun v a => (hφ v a).stops (by decide)
  rcases readWord?_templated hstart hx with hn | ⟨a, r, hr, hs⟩
  · left
    intro v
    simp only [readAnchor?, hn v]
  · have hhead : ∃ b, ∀ v, (r v).head?.any isBlank = b := by
      rcases templated_cases hr with h0 | ⟨c, q, -, hq⟩ | ⟨a, q, -, hq⟩
      · exact ⟨false, fun v => by simp [h0 v]⟩
      · exact ⟨isBlank c, fun v => by simp [hq v]⟩
      · refine ⟨false, fun v => ?_⟩
        obtain ⟨m, hm, -⟩ := hφ v a
        have hlt : isBlank '<' = false := by decide
        simp [hq v, hm, hlt]
    obtain ⟨b, hb⟩ := hhead
    cases b with
    | false =>
      left
      intro v
      simp only [readAnchor?, hs v, hb v, Bool.not_false, if_true]
    | true =>
      rcases nearest?_end_templated hφ hr with hn | ⟨attributes, q, hattr, hq, hs'⟩
      · left
        intro v
        simp only [readAnchor?, hs v, hb v, hn v, Bool.not_true, Bool.false_eq_true, if_false]
      · have hclose : ∀ v a, Stops foldCase (φ v a) "</a>".toList ∧
            Skips (readWord? foldCase "</a>".toList) (φ v a) :=
          fun v a => ⟨(hφ v a).stops (by decide), (hφ v a).skips (.inr rfl) (by decide)⟩
        rcases nearest?_templated hclose hq with hn | ⟨body, m, z, hbody, hz, hs''⟩
        · left
          intro v
          simp only [readAnchor?, hs v, hb v, hs' v, hn v, Bool.not_true, Bool.false_eq_true,
            if_false, Option.map_none]
        · refine .inr ⟨fun v => a ++ (attributes v ++ ['>']) ++ body v ++ m, z, ?_, hz, fun v => ?_⟩
          · exact (((Templated.of_const a).append hattr).append hbody).append (.of_const m)
          · simp only [readAnchor?, hs v, hb v, hs' v, hs'' v, Bool.not_true, Bool.false_eq_true,
              if_false, Option.map_some, List.append_assoc]

theorem readValue?_templated {x : V → Text} (hx : Templated φ x) :
    (∀ v, readValue? (x v) = none) ∨
      ∃ s r, Templated φ r ∧ ∀ v, readValue? (x v) = some (s, r v) := by
  rcases templated_cases hx with h0 | ⟨c, r, hr, hs⟩ | ⟨a, r, hr, hs⟩
  · left
    intro v
    rw [h0 v]
    rfl
  · by_cases hc : c = '"' ∨ c = '='
    · rcases readUrl?_templated hφ hr with hn | ⟨s, q, hq, hs'⟩
      · left
        intro v
        simp [readValue?, hs v, hn v]
      · refine .inr ⟨c :: s, q, hq, fun v => ?_⟩
        simp [readValue?, hs v, hs' v, hc]
    · left
      intro v
      simp only [not_or] at hc
      simp [readValue?, hs v, hc.1, hc.2]
  · left
    intro v
    obtain ⟨m, hm, -⟩ := hφ v a
    simp [readValue?, hs v, hm]

/-- What is found: the same URL in all members, or a stretch that is left alone. -/
def SpotTemplated (φ : V → σ → Text) (a : V → Spot) : Prop :=
  (∃ s, a = fun _ => .url s) ∨ ∃ k, Templated φ k ∧ a = fun v => .kept (k v)

theorem readSpot?_blind : Blind φ (SpotTemplated φ) readSpot? := by
  intro x hx
  rcases readAnchor?_templated hφ hx with hn | ⟨k, r, hk, hr, hs⟩
  · rcases readValue?_templated hφ hx with hn' | ⟨s, r, hr, hs⟩
    · rcases readUrl?_templated hφ hx with hn'' | ⟨s, r, hr, hs⟩
      · left
        intro v
        simp only [readSpot?, hn v, hn' v, hn'' v, Option.or_none, Option.map_none]
      · refine .inr ⟨fun _ => .url s, r, .inl ⟨s, rfl⟩, hr, fun v => ?_⟩
        simp only [readSpot?, hn v, hn' v, hs v, Option.or_none, Option.map_some]
    · refine .inr ⟨fun _ => .kept s, r, .inr ⟨_, .of_const s, rfl⟩, hr, fun v => ?_⟩
      simp only [readSpot?, hn v, hs v, Option.none_or]
  · refine .inr ⟨fun v => .kept (k v), r, .inr ⟨k, hk, rfl⟩, hr, fun v => ?_⟩
    simp only [readSpot?, hs v, Option.some_or]

omit hφ in
/-- A text in which no URL starts and that does not end in a mark has no attribute value. -/
theorem skips_readValue? {y : Text} {z : Char} (hz : z ≠ '"' ∧ z ≠ '=')
    (h : Skips readUrl? (y ++ [z])) : Skips readValue? (y ++ [z]) := by
  induction y with
  | nil => exact ⟨fun r => by simp [readValue?, hz.1, hz.2], trivial⟩
  | cons c y ih =>
    refine ⟨fun r => ?_, ih h.2⟩
    show readValue? (c :: (y ++ [z] ++ r)) = none
    have hnext : readUrl? (y ++ [z] ++ r) = none := by
      cases y with
      | nil => exact h.2.1 r
      | cons d y => exact h.2.1 r
    rw [readValue?, hnext]
    simp

theorem skips_readSpot? (v : V) (a : σ) : Skips readSpot? (φ v a) := by
  have hanchor : Skips readAnchor? (φ v a) := by
    have hs : Skips (readWord? foldCase "<a".toList) (φ v a) :=
      (hφ v a).skips (.inr rfl) (by decide)
    exact hs.imp fun s hn => by rw [readAnchor?, hn]
  have hurl : Skips readUrl? (φ v a) := by
    have hs : Skips (readWord? foldCase "https://".toList) (φ v a) :=
      (hφ v a).skips (.inr rfl) (by decide)
    exact hs.imp₂ (fun s h1 h2 => readUrl?_of_not_scheme h1 h2)
      ((hφ v a).skips (.inr rfl) (by decide))
  have hvalue : Skips readValue? (φ v a) := by
    obtain ⟨m, hm, -⟩ := hφ v a
    have hend : φ v a = (['<', 'd'] ++ (m ++ ['"'])) ++ ['>'] := by simp [hm]
    rw [hend] at hurl ⊢
    exact skips_readValue? (by decide) hurl
  have hkept : Skips (fun s => (readAnchor? s).or (readValue? s)) (φ v a) :=
    hanchor.imp₂ (fun s h1 h2 => by rw [h1, h2]; rfl) hvalue
  exact hkept.imp₂ (fun s h1 h2 => by simp only [readSpot?, h1, h2, Option.map_none]) hurl

theorem uniform_links (v₀ : V) : Uniform φ fun x => (autolink x.1, x.2) := by
  refine Uniform.of_text fun x hx => ?_
  refine substitute_templated (p := pattern) hφ v₀ (skips_readSpot? hφ) (readSpot?_blind hφ) ?_ hx
  rintro a (⟨s, rfl⟩ | ⟨k, hk, rfl⟩)
  · exact .of_const _
  · exact hk

end BBCode.Autolink
