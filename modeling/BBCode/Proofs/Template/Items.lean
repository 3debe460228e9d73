import BBCode.Item
import BBCode.Proofs.Template.Rules

/-!
# BBCode.Proofs.Template.Items

List items on templated families: no slot holds a bound of an item, so items begin and end at the
same places in all members.

* `split_templated`: splitting a list into items.
* `uniform_lists`: the whole step for lists.
-/

namespace BBCode.Item

/-- A text in which no marker and no end of a list is read has no bound of an item. -/
theorem skips_readBound?_of_words {x : Text} (hmarker : Skips (readWord? id markerText) x)
    (hol : Skips (readWord? foldCase "</ol>".toList) x)
    (hul : Skips (readWord? foldCase "</ul>".toList) x) : Skips readBound? x := by
  have hend : Skips (fun s => (readWord? foldCase "</ol>".toList s).or
      (readWord? foldCase "</ul>".toList s)) x :=
    hol.imp₂ (fun s h1 h2 => by rw [h1, h2]; rfl) hul
  exact hmarker.imp₂ (fun s h1 h2 => by rw [readBound?, h1]; simp only [h2, Option.map_none]) hend

variable {V σ : Type} {φ : V → σ → Text} (hφ : ∀ v a, Sealed (φ v a))

section

include hφ

theorem readBound?_blind : Blind φ (fun a => ∃ b, a = fun _ => b) readBound? := by
  intro x hx
  have hmarker : ∀ v a, Stops id (φ v a) markerText := fun v a => (hφ v a).stops (by decide)
  have hol : ∀ v a, Stops foldCase (φ v a) "</ol>".toList := fun v a => (hφ v a).stops (by decide)
  have hul : ∀ v a, Stops foldCase (φ v a) "</ul>".toList := fun v a => (hφ v a).stops (by decide)
  rcases readWord?_templated hmarker hx with hn | ⟨a, r, hr, hs⟩
  · rcases readWord?_templated hol hx with hn' | ⟨a, r, hr, hs⟩
    · rcases readWord?_templated hul hx with hn'' | ⟨a, r, hr, hs⟩
      · left
        intro v
        simp only [readBound?, hn v, hn' v, hn'' v, Option.or_none, Option.map_none]
      · refine .inr ⟨fun _ => .listEnd a, r, ⟨_, rfl⟩, hr, fun v => ?_⟩
        simp only [readBound?, hn v, hn' v, hs v, Option.none_or, Option.map_some]
    · refine .inr ⟨fun _ => .listEnd a, r, ⟨_, rfl⟩, hr, fun v => ?_⟩
      simp only [readBound?, hn v, hs v, Option.some_or, Option.map_some]
  · refine .inr ⟨fun _ => .marker, r, ⟨_, rfl⟩, hr, fun v => ?_⟩
    simp only [readBound?, hs v]

theorem skips_readBound? (v : V) (a : σ) : Skips readBound? (φ v a) :=
  skips_readBound?_of_words ((hφ v a).skips (.inl rfl) (by decide))
    ((hφ v a).skips (.inr rfl) (by decide)) ((hφ v a).skips (.inr rfl) (by decide))

end

theorem upToBound?_plain (s : Text) (ps : List (Piece Char Bound)) :
    upToBound? (s.map .plain ++ ps) = (upToBound? ps).map fun x => (s ++ x.1, x.2) := by
  induction s with
  | nil => simp
  | cons c s ih =>
    rw [List.map_cons, List.cons_append, upToBound?, ih]
    cases upToBound? ps <;> rfl

theorem write_plain (s : Text) (ps : List (Piece Char Bound)) :
    write (s.map .plain ++ ps) = s ++ write ps := by
  induction s with
  | nil => rfl
  | cons c s ih => rw [List.map_cons, List.cons_append, write, ih]; rfl

theorem write_marker_of_some {ps rest : List (Piece Char Bound)} {body : Text}
    (h : upToBound? ps = some (body, rest)) :
    write (.found .marker :: ps) = element body ++ write rest := by
  rw [write]
  split
  · rename_i b q hq
    rw [h] at hq
    cases hq
    rfl
  · rename_i hn
    rw [h] at hn
    cases hn

theorem write_marker_of_none {ps : List (Piece Char Bound)} (h : upToBound? ps = none) :
    write (.found .marker :: ps) = markerText ++ write ps := by
  rw [write]
  split
  · rename_i b q hq
    rw [h] at hq
    cases hq
  · rfl

/-- Parts whose bounds are the same in all members of a family. -/
def Fixed (L : List (Part V σ Bound)) : Prop := ∀ a, .found a ∈ L → ∃ b, a = fun _ => b

theorem upToBound?_templated {L : List (Part V σ Bound)} (hL : Fixed L) :
    (∀ v, upToBound? (L.flatMap (Part.pieces φ v)) = none) ∨
      ∃ body M, Templated φ body ∧ Fixed M ∧ M.length ≤ L.length ∧
        ∀ v, upToBound? (L.flatMap (Part.pieces φ v)) =
          some (body v, M.flatMap (Part.pieces φ v)) := by
  induction L with
  | nil => exact .inl fun v => rfl
  | cons part L ih =>
    have ih := ih fun a ha => hL a (List.mem_cons_of_mem _ ha)
    cases part with
    | found a =>
      obtain ⟨b, rfl⟩ := hL a (by simp)
      exact .inr ⟨fun _ => [], _, .of_const [], hL, Nat.le_refl _, fun v => rfl⟩
    | plain c =>
      rcases ih with hn | ⟨body, M, hbody, hM, hlen, hs⟩
      · left
        intro v
        simp [Part.pieces, upToBound?, hn v]
      · refine .inr ⟨fun v => c :: body v, M, hbody.cons c, hM, Nat.le_succ_of_le hlen, fun v => ?_⟩
        simp [Part.pieces, upToBound?, hs v]
    | slot a =>
      rcases ih with hn | ⟨body, M, hbody, hM, hlen, hs⟩
      · left
        intro v
        rw [List.flatMap_cons, Part.pieces, upToBound?_plain, hn v]
        rfl
      · refine .inr ⟨fun v => φ v a ++ body v, M, (Templated.of_slot a).append hbody, hM,
          Nat.le_succ_of_le hlen, fun v => ?_⟩
        rw [List.flatMap_cons, Part.pieces, upToBound?_plain, hs v]
        rfl

include hφ

theorem write_templated (v₀ : V) {L : List (Part V σ Bound)} (hL : Fixed L) :
    Templated φ fun v => write (L.flatMap (Part.pieces φ v)) := by
  induction hlen : L.length using Nat.strongRecOn generalizing L with
  | ind len ih =>
    subst hlen
    cases L with
    | nil => exact (Templated.of_const []).of_eq fun v => by simp [write]
    | cons part L =>
      have hrest : Fixed L := fun a ha => hL a (List.mem_cons_of_mem _ ha)
      have hx := ih L.length (Nat.lt_succ_self _) hrest rfl
      cases part with
      | plain c => exact (hx.cons c).of_eq fun v => by simp [Part.pieces, write]
      | slot a =>
        refine ((Templated.of_slot a).append hx).of_eq fun v => ?_
        rw [List.flatMap_cons, Part.pieces, write_plain]
      | found a =>
        obtain ⟨b, rfl⟩ := hL a (by simp)
        cases b with
        | listEnd s =>
          refine ((Templated.of_const s).append hx).of_eq fun v => ?_
          simp [Part.pieces, write]
        | marker =>
          rcases upToBound?_templated (φ := φ) hrest with hn | ⟨body, M, hbody, hM, hlen, hs⟩
          · refine ((Templated.of_const markerText).append hx).of_eq fun v => ?_
            exact write_marker_of_none (hn v)
          · have hitem : Templated φ fun v => element (body v) :=
              (trimBreaks_templated hφ v₀ hbody).between _ _
            refine (hitem.append (ih M.length (Nat.lt_succ_of_le hlen) hM rfl)).of_eq fun v => ?_
            exact write_marker_of_some (hs v)

theorem split_templated (v₀ : V) {x : V → Text} (hx : Templated φ x) :
    Templated φ fun v => split (x v) := by
  obtain ⟨L, hL, hpieces⟩ := pieces_templated (p := pattern) hφ v₀ (skips_readBound? hφ)
    (readBound?_blind hφ) hx
  exact (write_templated hφ v₀ hL).of_eq fun v => by rw [split, hpieces v]

theorem uniform_lists (v₀ : V) (o : Options) : Uniform φ (resolve o) := by
  have htrim : ∀ {x : V → Text}, Templated φ x → Templated φ fun v => (x v).trimBreaks :=
    fun hx => trimBreaks_templated hφ v₀ hx
  have hrules : Uniform φ (Rule.applyAll o rules) := by
    refine Uniform.foldl ?_
    simp only [rules, List.mem_cons, List.not_mem_nil, or_false]
    rintro r (rfl | rfl)
    · exact Uniform.valued hφ v₀ o _ _ (by decide) (ValueForm.filled_clear hφ)
        fun p x hp hx => (htrim hx).between _ _
    · exact Uniform.bare hφ v₀ o _ _ (by decide) fun x hx => (htrim hx).between _ _
  have hsplit : Uniform φ fun x => (split x.1, x.2) :=
    Uniform.of_text fun x hx => split_templated hφ v₀ hx
  exact Uniform.comp (F := Rule.applyAll o rules) hsplit hrules

end BBCode.Item
