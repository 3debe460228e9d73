import BBCode.Proofs.Tag.Grammar
import BBCode.Proofs.Template.Pattern

/-!
# BBCode.Proofs.Template.Tags

Tags on templated families: the tags of the members have the same shapes and names, and differ in
parameters and text only where slots do.

* `readTag?_blind`: a tag is read from all members or from none.
* `scan_templated`: the tags of a templated family.
-/

namespace BBCode

section

variable {V σ : Type} {φ : V → σ → Text}

/-! ## Tags -/

/-- A family of tags of one shape and name, the rest templated. -/
inductive TagTemplated (φ : V → σ → Text) : (V → Tag) → Prop where
  | opening (n : Text) : TagTemplated φ fun _ => .opening n none
  | valued (n : Text) {p : V → Text} : Templated φ p → TagTemplated φ fun v => .opening n (some (p v))
  | closing (n : Text) : TagTemplated φ fun _ => .closing n
  | text {x : V → Text} : Templated φ x → TagTemplated φ fun v => .text (x v)

theorem TagTemplated.source {T : V → Tag} (h : TagTemplated φ T) :
    Templated φ fun v => (T v).source := by
  cases h with
  | opening n => exact .of_const _
  | valued n hp =>
    exact ((((Templated.of_const ('[' :: n)).append (hp.cons '=')).append (.of_const [']'])))
  | closing n => exact .of_const _
  | text hx => exact hx

/-- A list of families, seen at one member. -/
def listAt {α : Type} (as : List (V → α)) (v : V) : List α := as.map fun a => a v

theorem joinText_templated {s : V → Text} {Ts : List (V → Tag)} (hs : Templated φ s)
    (hT : ∀ T ∈ Ts, TagTemplated φ T) :
    ∃ Us, (∀ T ∈ Us, TagTemplated φ T) ∧
      ∀ v, Tag.joinText (s v) (listAt Ts v) = listAt Us v := by
  cases Ts with
  | nil => exact ⟨[fun v => .text (s v)], by simpa using .text hs, fun v => rfl⟩
  | cons T Ts =>
    have hrest : ∀ U ∈ Ts, TagTemplated φ U := fun U hU => hT U (List.mem_cons_of_mem _ hU)
    have hcons : ∀ {U : V → Tag}, TagTemplated φ U → ∀ W ∈ U :: T :: Ts, TagTemplated φ W := by
      intro U hU W hW
      rcases List.mem_cons.1 hW with rfl | hW
      · exact hU
      · exact hT W hW
    cases hT T (by simp) with
    | text hx =>
      refine ⟨_ :: Ts, ?_, fun v => rfl⟩
      intro W hW
      rcases List.mem_cons.1 hW with rfl | hW
      · exact .text (hs.append hx)
      · exact hrest W hW
    | opening n => exact ⟨_, hcons (.text hs), fun v => rfl⟩
    | valued n hp => exact ⟨_, hcons (.text hs), fun v => rfl⟩
    | closing n => exact ⟨_, hcons (.text hs), fun v => rfl⟩

theorem ofChars_plain {s : Text} (hs : s ≠ []) (ps : List (Piece Char Tag)) :
    Tag.ofChars (s.map .plain ++ ps) = Tag.joinText s (Tag.ofChars ps) := by
  induction s with
  | nil => exact absurd rfl hs
  | cons c s ih =>
    rw [List.map_cons, List.cons_append, Tag.ofChars]
    by_cases hnil : s = []
    · rw [hnil]
      rfl
    · rw [ih hnil, Tag.joinText_joinText]
      rfl

variable (hφ : ∀ v a, Sealed (φ v a))
include hφ

theorem name_templated {x : V → Text} (hx : Templated φ x) :
    ∃ n r, Templated φ r ∧ ∀ v, Tag.nameOf (x v) = n ∧ Tag.afterName (x v) = r v := by
  refine takeWhile_templated (fun v a => ?_) hx
  obtain ⟨m, hm, -⟩ := hφ v a
  exact ⟨'<', _, hm, by decide⟩

theorem readClosing?_blind : Blind φ (TagTemplated φ) Tag.readClosing? := by
  intro x hx
  have hend : ∀ v a, Stops id (φ v a) [']'] := fun v a => (hφ v a).stops (by decide)
  obtain ⟨n, z, hz, hn⟩ := name_templated hφ hx
  cases hemp : n.isEmpty with
  | true =>
    left
    intro v
    simp only [Tag.readClosing?, hn v, hemp, if_true]
  | false =>
    rcases readWord?_templated hend hz with hnone | ⟨b, y, hy, hs⟩
    · left
      intro v
      simp only [Tag.readClosing?, hn v, hemp, hnone v, Bool.false_eq_true, if_false,
        Option.map_none]
    · refine .inr ⟨fun _ => .closing n, y, .closing n, hy, fun v => ?_⟩
      simp only [Tag.readClosing?, hn v, hemp, hs v, Bool.false_eq_true, if_false, Option.map_some]

theorem readOpening?_tag_blind : Blind φ (TagTemplated φ) Tag.readOpening? := by
  intro x hx
  have hend : ∀ v a, Stops id (φ v a) [']'] ∧ Skips (readWord? id [']']) (φ v a) :=
    fun v a => ⟨(hφ v a).stops (by decide), (hφ v a).skips (.inl rfl) (by decide)⟩
  have heq : ∀ v a, Stops id (φ v a) ['='] := fun v a => (hφ v a).stops (by decide)
  obtain ⟨n, z, hz, hn⟩ := name_templated hφ hx
  cases hemp : n.isEmpty with
  | true =>
    left
    intro v
    simp only [Tag.readOpening?, hn v, hemp, if_true]
  | false =>
    rcases readWord?_templated (fun v a => (hend v a).1) hz with hnone | ⟨b, y, hy, hs⟩
    · rcases readWord?_templated heq hz with hnone' | ⟨b, y, hy, hs⟩
      · left
        intro v
        simp only [Tag.readOpening?, hn v, hemp, hnone v, hnone' v, Bool.false_eq_true, if_false]
      · rcases nearest?_templated hend hy with hnone' | ⟨p, m, q, hp, hq, hs'⟩
        · left
          intro v
          simp only [Tag.readOpening?, hn v, hemp, hnone v, hs v, hnone' v, Bool.false_eq_true,
            if_false, Option.map_none]
        · refine .inr ⟨fun v => .opening n (some (p v)), q, .valued n hp, hq, fun v => ?_⟩
          simp only [Tag.readOpening?, hn v, hemp, hnone v, hs v, hs' v, Bool.false_eq_true,
            if_false, Option.map_some]
    · refine .inr ⟨fun _ => .opening n none, y, .opening n, hy, fun v => ?_⟩
      simp only [Tag.readOpening?, hn v, hemp, hs v, Bool.false_eq_true, if_false]

theorem readTag?_blind : Blind φ (TagTemplated φ) Tag.readTag? := by
  intro x hx
  -- where the members do not start with a bracket, none has a tag
  have hnone : (∀ v c s, x v = c :: s → c ≠ '[') → ∀ v, Tag.readTag? (x v) = none := by
    intro h v
    cases hv : x v with
    | nil => rfl
    | cons c s => exact Tag.readTag?_of_ne (h v c s hv) s
  rcases templated_cases hx with h0 | ⟨c, r, hr, hs⟩ | ⟨a, r, hr, hs⟩
  · exact .inl (hnone fun v c s hv => by simp [h0 v] at hv)
  · by_cases hc : c = '['
    · subst hc
      have hopening : (∀ v, (r v).head? ≠ some '/') →
          Found φ (TagTemplated φ) fun v => Tag.readTag? (x v) := fun hhead =>
        Found.of_eq (readOpening?_tag_blind hφ r hr) fun v => by
          rw [hs v, Tag.readTag?_opening (hhead v)]
      rcases templated_cases hr with h0 | ⟨d, q, hq, hs'⟩ | ⟨a, q, hq, hs'⟩
      · exact hopening fun v => by simp [h0 v]
      · by_cases hd : d = '/'
        · subst hd
          exact Found.of_eq (readClosing?_blind hφ q hq) fun v => by
            rw [hs v, hs' v, Tag.readTag?]
        · exact hopening fun v => by simp [hs' v, hd]
      · refine hopening fun v => ?_
        obtain ⟨m, hm, -⟩ := hφ v a
        simp [hs' v, hm]
    · refine .inl (hnone fun v d s hv => ?_)
      rw [hs v] at hv
      cases hv
      exact hc
  · refine .inl (hnone fun v d s hv => ?_)
    obtain ⟨m, hm, -⟩ := hφ v a
    rw [hs v, hm] at hv
    cases hv
    decide

theorem skips_readTag? (v : V) (a : σ) : Skips Tag.readTag? (φ v a) := by
  have hs : Skips (readWord? id ['[']) (φ v a) := (hφ v a).skips (.inl rfl) (by decide)
  refine hs.imp fun s hn => ?_
  cases s with
  | nil => rfl
  | cons c s =>
    apply Tag.readTag?_of_ne
    rintro rfl
    simp [readWord?] at hn

theorem ofChars_templated {L : List (Part V σ Tag)} (hL : ∀ a, .found a ∈ L → TagTemplated φ a) :
    ∃ Ts, (∀ T ∈ Ts, TagTemplated φ T) ∧
      ∀ v, Tag.ofChars (L.flatMap (Part.pieces φ v)) = listAt Ts v := by
  induction L with
  | nil => exact ⟨[], fun T hT => by simp at hT, fun v => rfl⟩
  | cons part L ih =>
    obtain ⟨Ts, hT, hs⟩ := ih fun a ha => hL a (List.mem_cons_of_mem _ ha)
    cases part with
    | plain c =>
      obtain ⟨Us, hU, hs'⟩ := joinText_templated (.of_const [c]) hT
      refine ⟨Us, hU, fun v => ?_⟩
      rw [← hs' v, ← hs v]
      rfl
    | slot a =>
      obtain ⟨Us, hU, hs'⟩ := joinText_templated (.of_slot a) hT
      refine ⟨Us, hU, fun v => ?_⟩
      have hne : φ v a ≠ [] := by
        obtain ⟨m, hm, -⟩ := hφ v a
        simp [hm]
      rw [List.flatMap_cons, Part.pieces, ofChars_plain hne, hs v, hs' v]
    | found a =>
      refine ⟨a :: Ts, fun T hmem => ?_, fun v => ?_⟩
      · rcases List.mem_cons.1 hmem with rfl | hmem
        · exact hL T (by simp)
        · exact hT T hmem
      · show a v :: Tag.ofChars (L.flatMap (Part.pieces φ v)) = _
        rw [hs v]
        rfl

theorem scan_templated (v₀ : V) {x : V → Text} (hx : Templated φ x) :
    ∃ Ts, (∀ T ∈ Ts, TagTemplated φ T) ∧ ∀ v, Tag.scan (x v) = listAt Ts v := by
  obtain ⟨L, hL, hpieces⟩ := pieces_templated (p := Tag.grammar) hφ v₀ (skips_readTag? hφ)
    (readTag?_blind hφ) hx
  obtain ⟨Ts, hT, hs⟩ := ofChars_templated hφ hL
  exact ⟨Ts, hT, fun v => by rw [Tag.scan_eq_ofChars, hpieces v, hs v]⟩

end

end BBCode
