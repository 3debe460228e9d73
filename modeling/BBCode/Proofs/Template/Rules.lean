import BBCode.Proofs.Template.Pattern
import BBCode.Rule.Table

/-!
# BBCode.Proofs.Template.Rules

The rules of the language on templated families: pairs of tags, and every replacement that the
rules make of what they find.

* `readPair?_blind`: pairs of tags are found at the same places in all members.
* `Uniform`: a step that rewrites all members of a family alike.
* `uniform_stage`: every stage after the boxes is such a step.
-/

namespace BBCode

section

variable {V σ : Type} {φ : V → σ → Text}

/-! ## Pairs of tags -/

/-- A family of regions whose parts are templated. -/
structure RegionTemplated (φ : V → σ → Text) (a : V → Region) : Prop where
  opening : Templated φ fun v => (a v).opening
  param : Templated φ fun v => (a v).param
  body : Templated φ fun v => (a v).body
  closing : Templated φ fun v => (a v).closing

theorem RegionTemplated.source {a : V → Region} (h : RegionTemplated φ a) :
    Templated φ fun v => (a v).source :=
  (h.opening.append h.body).append h.closing

/-- The marks around the value keep clear of slots, and whether a value is accepted does not
depend on what is in them. -/
structure ValueForm.Clear (φ : V → σ → Text) (f : ValueForm) : Prop where
  before : '<' ∉ f.before
  after : '<' ∉ f.after
  search : passes id f.after = true
  accepts : ∀ p, Templated φ p → ∃ b, ∀ v, f.accepts (p v) = b

theorem ValueForm.any_clear : ValueForm.any.Clear φ where
  before := by decide
  after := by decide
  search := by decide
  accepts p hp := ⟨true, fun v => rfl⟩

theorem ValueForm.quoted_clear : ValueForm.quoted.Clear φ where
  before := by decide
  after := by decide
  search := by decide
  accepts p hp := ⟨true, fun v => rfl⟩

theorem ValueForm.filled_clear (hφ : ∀ v a, Sealed (φ v a)) : ValueForm.filled.Clear φ where
  before := by decide
  after := by decide
  search := by decide
  accepts p hp := by
    show ∃ b, ∀ v, (!(p v).isEmpty) = b
    rcases templated_cases hp with h0 | ⟨c, r, hr, hs⟩ | ⟨a, r, hr, hs⟩
    · exact ⟨false, fun v => by simp [h0 v]⟩
    · exact ⟨true, fun v => by simp [hs v]⟩
    · refine ⟨true, fun v => ?_⟩
      obtain ⟨m, hm, -⟩ := hφ v a
      simp [hs v, hm]

theorem clashesAll_of_not_mem {f : Char → Char} {w s : Text} (hf : f '<' = '<') (h : '<' ∉ w) :
    clashesAll f ('<' :: s) w = true := by
  induction w with
  | nil => rfl
  | cons p w ih =>
    have hp : ¬ f '<' = p := by
      rw [hf]
      rintro rfl
      exact h (by simp)
    rw [clashesAll, clashes, if_neg hp, ih fun hm => h (by simp [hm])]
    rfl

theorem Sealed.stops_of_not_mem {f : Char → Char} {w s : Text} (hs : Sealed s)
    (hf : f '<' = '<') (h : '<' ∉ w) : Stops f s w :=
  hs.stops (clashesAll_of_not_mem hf h)

theorem passes_of_bar {f : Char → Char} {p : Char} (hp : bars.contains p = true) (hlt : f '<' ≠ p)
    (hd : f 'd' ≠ p) (w : Text) : passes f (p :: w) = true := by
  have h1 : avoids f (p :: w) ['<', 'd'] = true := by simp [avoids, clashes, hlt, hd]
  cases w with
  | nil => rw [passes, h1, hp]; rfl
  | cons q w => rw [passes, h1, hp]; rfl

theorem TagPair.readPair?_of_readWord? {t : TagPair} {s : Text}
    (h : ∀ w, readWord? foldCase ('[' :: w) s = none) :
    t.readPair? s = none := by
  have hopen : t.readOpening? s = none := by
    rw [TagPair.readOpening?]
    cases t.value with
    | none => simp [h]
    | some v => simp [h]
  rw [TagPair.readPair?, hopen]

theorem TagPair.readPair?_cons {t : TagPair} {c : Char} (h : foldCase c ≠ '[') (s : Text) :
    t.readPair? (c :: s) = none :=
  TagPair.readPair?_of_readWord? fun _ => readWord?_cons_of_ne h

variable (hφ : ∀ v a, Sealed (φ v a))
include hφ

theorem skips_readPair? (t : TagPair) (v : V) (a : σ) : Skips t.readPair? (φ v a) := by
  have hs : Skips (readWord? foldCase ['[']) (φ v a) := (hφ v a).skips (.inr rfl) (by decide)
  refine hs.imp fun s hn => TagPair.readPair?_of_readWord? fun w => ?_
  cases s with
  | nil => rfl
  | cons c s =>
    apply readWord?_cons_of_ne
    intro hc
    rw [readWord?, if_pos hc] at hn
    cases hn

theorem readOpening?_blind {t : TagPair} (ht : '<' ∉ t.name)
    (hv : ∀ f, t.value = some f → f.Clear φ) {x : V → Text} (hx : Templated φ x) :
    (∀ v, t.readOpening? (x v) = none) ∨
      ∃ o p r, Templated φ o ∧ Templated φ p ∧ Templated φ r ∧
        ∀ v, t.readOpening? (x v) = some (o v, p v, r v) := by
  obtain ⟨name, value⟩ := t
  have hfold : foldCase '<' = '<' := by decide
  cases value with
  | none =>
    have hw : '<' ∉ '[' :: name ++ [']'] := by simpa using ht
    rcases readWord?_templated (fun v a => (hφ v a).stops_of_not_mem hfold hw) hx with
      hn | ⟨a, r, hr, hs⟩
    · left
      intro v
      simp only [TagPair.readOpening?, hn v, Option.map_none]
    · refine .inr ⟨fun _ => a, fun _ => [], r, .of_const a, .of_const [], hr, fun v => ?_⟩
      simp only [TagPair.readOpening?, hs v, Option.map_some]
  | some f =>
    have hf := hv f rfl
    have hw : '<' ∉ '[' :: name ++ f.before := by simpa using ⟨ht, hf.before⟩
    rcases readWord?_templated (fun v a => (hφ v a).stops_of_not_mem hfold hw) hx with
      hn | ⟨a, r, hr, hs⟩
    · left
      intro v
      simp only [TagPair.readOpening?, hn v]
    · have hafter : ∀ v a, Stops id (φ v a) f.after ∧ Skips (readWord? id f.after) (φ v a) :=
        fun v a => ⟨(hφ v a).stops_of_not_mem rfl hf.after, (hφ v a).skips (.inl rfl) hf.search⟩
      rcases nearest?_templated hafter hr with hn | ⟨b, m, q, hb, hq, hq'⟩
      · left
        intro v
        simp only [TagPair.readOpening?, hs v, hn v]
      · obtain ⟨ok, hok⟩ := hf.accepts b hb
        cases ok with
        | false =>
          left
          intro v
          simp only [TagPair.readOpening?, hs v, hq' v, hok v, Bool.false_eq_true, if_false]
        | true =>
          refine .inr ⟨fun v => a ++ b v ++ m, b, q, ?_, hb, hq, fun v => ?_⟩
          · exact ((Templated.of_const a).append hb).append (.of_const m)
          · simp only [TagPair.readOpening?, hs v, hq' v, hok v, if_true]

theorem readPair?_blind {t : TagPair} (ht : '<' ∉ t.name)
    (hv : ∀ f, t.value = some f → f.Clear φ) : Blind φ (RegionTemplated φ) t.readPair? := by
  intro x hx
  have hfold : foldCase '<' = '<' := by decide
  rcases readOpening?_blind hφ ht hv hx with hn | ⟨o, p, r, ho, hp, hr, hs⟩
  · left
    intro v
    simp [TagPair.readPair?, hn v]
  · have hw : '<' ∉ t.closer := by simpa [TagPair.closer] using ht
    have hclose : ∀ v a, Stops foldCase (φ v a) t.closer ∧
        Skips (readWord? foldCase t.closer) (φ v a) :=
      fun v a => ⟨(hφ v a).stops_of_not_mem hfold hw,
        (hφ v a).skips (.inr rfl) (passes_of_bar (by decide) (by decide) (by decide) _)⟩
    rcases nearest?_templated hclose hr with hn | ⟨b, m, q, hb, hq, hq'⟩
    · left
      intro v
      simp [TagPair.readPair?, hs v, hn v]
    · refine .inr ⟨fun v => ⟨o v, p v, b v, m⟩, q, ⟨ho, hp, hb, .of_const m⟩, hq, fun v => ?_⟩
      simp [TagPair.readPair?, hs v, hq' v]

end

/-! ## Steps -/

/-- A step that rewrites all members of a templated family alike: the family it makes is
templated, and of the counters it changes the number of hover cards only, by the same for all. -/
def Uniform {V σ : Type} (φ : V → σ → Text) (F : Text × Tally → Text × Tally) : Prop :=
  ∀ (x : V → Text) (n : Nat), Templated φ x → ∃ y m, Templated φ y ∧
    ∀ v (t : Tally), t.cards = n → F (x v, t) = (y v, { t with cards := m })

namespace Uniform

variable {V σ : Type} {φ : V → σ → Text}

theorem unchanged : Uniform φ id :=
  fun x n hx => ⟨x, n, hx, fun v t ht => by rw [← ht]; rfl⟩

theorem comp {F G : Text × Tally → Text × Tally} (hG : Uniform φ G) (hF : Uniform φ F) :
    Uniform φ fun x => G (F x) := by
  intro x n hx
  obtain ⟨y, m, hy, hF⟩ := hF x n hx
  obtain ⟨z, k, hz, hG⟩ := hG y m hy
  refine ⟨z, k, hz, fun v t ht => ?_⟩
  show G (F (x v, t)) = _
  rw [hF v t ht, hG v _ rfl]

theorem foldl {α : Type} {F : Text × Tally → α → Text × Tally} {as : List α}
    (h : ∀ a ∈ as, Uniform φ fun x => F x a) : Uniform φ fun x => as.foldl F x := by
  induction as with
  | nil => exact unchanged
  | cons a as ih =>
    have ha := h a List.mem_cons_self
    exact comp (ih fun b hb => h b (List.mem_cons_of_mem _ hb)) ha

theorem of_text {F : Text → Text} (h : ∀ x, Templated φ x → Templated φ fun v => F (x v)) :
    Uniform φ fun x => (F x.1, x.2) :=
  fun x n hx => ⟨fun v => F (x v), n, h x hx, fun v t ht => by rw [← ht]⟩

variable (hφ : ∀ v a, Sealed (φ v a)) (v₀ : V)
include hφ v₀

theorem replace (o : Options) (name : String) {p : Pattern Char Region} {f : Region → Text}
    {G : (V → Region) → Prop} (hskip : ∀ v a, Skips p.read? (φ v a)) (hp : Blind φ G p.read?)
    (hf : ∀ a, G a → Templated φ fun v => f (a v)) :
    Uniform φ ((Rule.mk name p (.replace f)).apply o) :=
  of_text fun _ hx => substitute_templated hφ v₀ hskip hp hf hx

theorem numbered (o : Options) (name : String) {p : Pattern Char Region}
    {f : Options → Nat → Region → Text} {G : (V → Region) → Prop}
    (hskip : ∀ v a, Skips p.read? (φ v a)) (hp : Blind φ G p.read?)
    (hf : ∀ n a, G a → Templated φ fun v => f o n (a v)) :
    Uniform φ ((Rule.mk name p (.numbered f)).apply o) := by
  intro x n hx
  obtain ⟨y, m, hy, hs⟩ := fillFrom_templated hφ v₀ hskip hp hf n hx
  refine ⟨y, m, hy, fun v t ht => ?_⟩
  simp only [Rule.apply, ht, hs v]

theorem pair (o : Options) (name : String) {t : TagPair} {f : Region → Text} (ht : '<' ∉ t.name)
    (hv : ∀ f, t.value = some f → f.Clear φ)
    (hf : ∀ a, RegionTemplated φ a → Templated φ fun v => f (a v)) :
    Uniform φ ((Rule.mk name t.pattern (.replace f)).apply o) :=
  replace hφ v₀ o name (skips_readPair? hφ t) (readPair?_blind hφ ht hv) hf

theorem bare (o : Options) (name tag : String) {f : Text → Text} (ht : '<' ∉ tag.toList)
    (hf : ∀ x, Templated φ x → Templated φ fun v => f (x v)) :
    Uniform φ ((Rule.bare name tag f).apply o) :=
  pair hφ v₀ o name (t := ⟨tag.toList, none⟩) ht (fun _ h => by cases h) fun _ ha => hf _ ha.body

theorem valued (o : Options) (name tag : String) {form : ValueForm} {f : Text → Text → Text}
    (ht : '<' ∉ tag.toList) (hform : form.Clear φ)
    (hf : ∀ p x, Templated φ p → Templated φ x → Templated φ fun v => f (p v) (x v)) :
    Uniform φ ((Rule.valued name tag form f).apply o) :=
  pair hφ v₀ o name (t := ⟨tag.toList, some form⟩) ht (fun _ h => by cases h; exact hform)
    fun _ ha => hf _ _ ha.param ha.body

end Uniform

/-! ## Replacements -/

section

variable {V σ : Type} {φ : V → σ → Text} {x : V → Text}

theorem Templated.between (before after : String) (hx : Templated φ x) :
    Templated φ fun v => Rule.between before after (x v) :=
  ((of_const before.toList).append hx).append (of_const after.toList)

/-- Templated texts with a fixed text between them. -/
theorem Templated.joined {y : V → Text} (hx : Templated φ x) (s : Text) (hy : Templated φ y) :
    Templated φ fun v => x v ++ s ++ y v :=
  (hx.append (of_const s)).append hy

theorem Templated.link {url : V → Text} (hurl : Templated φ url) (hx : Templated φ x) :
    Templated φ fun v => Html.link (url v) (x v) := by
  unfold Html.link
  exact (((of_const _).append hurl).joined _ hx).append (of_const _)

theorem Templated.profileLink {user : V → Text} (base : Text) (card : Nat)
    (huser : Templated φ user) (hx : Templated φ x) :
    Templated φ fun v => Html.profileLink base (user v) (x v) card := by
  have hcard : Templated φ fun _ => Html.cardPrefix ++ decimal card := .of_const _
  unfold Html.profileLink
  refine .append (.joined (.joined (.joined ?_ _ hx) _ hcard) _ huser) (.of_const _)
  exact .joined (.joined (.append (.of_const _) huser) _ huser) _ hcard

theorem Templated.audioPlayer (hx : Templated φ x) :
    Templated φ fun v => Html.audioPlayer (x v) :=
  ((of_const _).append hx).append (of_const _)

variable (hφ : ∀ v a, Sealed (φ v a))
include hφ

theorem Templated.inlineCodeSpan {a : V → Region} (ha : RegionTemplated φ a) :
    Templated φ fun v => Stage.inlineCodeSpan (a v) := by
  have hbr : ∀ v s, Stops id (φ v s) lineBreak ∧ Skips (readWord? id lineBreak) (φ v s) :=
    fun v s => ⟨(hφ v s).stops (by decide), (hφ v s).skips (.inl rfl) (by decide)⟩
  -- a slot holds no line break, so all members of the family have one or none
  rcases nearest?_templated hbr ha.body with hn | ⟨b, m, r, -, -, hs⟩
  · refine (ha.body.between "<code>" "</code>").of_eq fun v => ?_
    simp [Stage.inlineCodeSpan, hn v]
  · refine ha.source.of_eq fun v => ?_
    simp [Stage.inlineCodeSpan, hs v]

theorem readTagBreak?_blind {tag : Text} (ht : clashesAll id ['<', 'd'] tag = true) :
    Blind φ (fun _ => True) (Rule.readTagBreak? tag) := by
  intro x hx
  rcases readWord?_templated (fun v a => (hφ v a).stops ht) hx with hn | ⟨a, r, hr, hs⟩
  · left
    intro v
    simp [Rule.readTagBreak?, hn v]
  · have hblank : ∀ v a, ∃ c s, φ v a = c :: s ∧ isBlank c = false := by
      intro v a
      obtain ⟨m, hm, -⟩ := hφ v a
      exact ⟨'<', _, hm, by decide⟩
    obtain ⟨n, q, hq, hs'⟩ := takeWhile_templated hblank hr
    have hbreak : ∀ v a, Stops id (φ v a) lineBreak := fun v a => (hφ v a).stops (by decide)
    rcases readWord?_templated hbreak hq with hn | ⟨b, z, hz, hs''⟩
    · left
      intro v
      simp [Rule.readTagBreak?, hs v, hs' v, hn v]
    · refine .inr ⟨fun _ => tag ++ n ++ b, z, trivial, hz, fun v => ?_⟩
      simp [Rule.readTagBreak?, hs v, hs' v, hs'' v]

theorem skips_tagBreak {tag : Text} (ht : passes id tag = true) (v : V) (a : σ) :
    Skips (Rule.readTagBreak? tag) (φ v a) :=
  ((hφ v a).skips (.inl rfl) ht).imp fun s hs => by rw [Rule.readTagBreak?, hs]

theorem Uniform.dropBreakAfter (v₀ : V) (o : Options) (name tag : String)
    (hclash : clashesAll id ['<', 'd'] tag.toList = true) (hpass : passes id tag.toList = true) :
    Uniform φ ((Rule.dropBreakAfter name tag).apply o) := by
  have hskip : ∀ v a, Skips ((Rule.tagBreak tag.toList).map fun s => ({ opening := s } : Region)).read?
      (φ v a) := fun v a =>
    (skips_tagBreak hφ hpass v a).imp fun s hs => by
      show (Rule.readTagBreak? tag.toList s).map _ = none
      rw [hs]
      rfl
  have hblind : Blind φ (fun _ : V → Region => True)
      ((Rule.tagBreak tag.toList).map fun s => ({ opening := s } : Region)).read? :=
    (readTagBreak?_blind hφ hclash).map (p := Rule.tagBreak tag.toList) fun _ _ => trivial
  exact Uniform.replace hφ v₀ o name hskip hblind fun _ _ => .of_const _

/-- The stages behind the boxes rewrite all members of a family alike. -/
theorem uniform_stage (v₀ : V) (o : Options) {s : Stage}
    (hs : s ∈ [Stage.quotes, .inlineCode, .layout, .linksAndMedia, .trailing, .collapseBreaks]) :
    Uniform φ (s.apply o) := by
  refine Uniform.foldl ?_
  have htrim : ∀ {x : V → Text}, Templated φ x → Templated φ fun v => (x v).trimBreaks :=
    fun hx => trimBreaks_templated hφ v₀ hx
  simp only [List.mem_cons, List.not_mem_nil, or_false] at hs
  rcases hs with rfl | rfl | rfl | rfl | rfl | rfl
  all_goals simp only [Stage.rules, List.mem_cons, List.not_mem_nil, or_false]
  · rintro r (rfl | rfl)
    · exact Uniform.bare hφ v₀ o _ _ (by decide) fun x hx => (htrim hx).between _ _
    · exact Uniform.valued hφ v₀ o _ _ (by decide) ValueForm.quoted_clear fun p x hp hx =>
        (hp.between _ _).append ((htrim hx).between _ _)
  · rintro r rfl
    exact Uniform.pair hφ v₀ o _ (by decide) (fun _ h => by cases h) fun a ha =>
      Templated.inlineCodeSpan hφ ha
  · rintro r rfl
    exact Uniform.bare hφ v₀ o _ _ (by decide) fun x hx => hx.between _ _
  · rintro r (rfl | rfl | rfl | rfl | rfl | rfl | rfl)
    · exact Uniform.bare hφ v₀ o _ _ (by decide) fun x hx => hx.link hx
    · exact Uniform.valued hφ v₀ o _ _ (by decide) ValueForm.any_clear fun p x hp hx => hp.link hx
    · exact Uniform.numbered hφ v₀ o _ (skips_readPair? hφ _)
        (readPair?_blind hφ (by decide) fun _ h => by cases h; exact ValueForm.any_clear)
        fun n a ha => Templated.profileLink _ n ha.param ha.body
    · exact Uniform.bare hφ v₀ o _ _ (by decide) fun x hx => hx.between _ _
    · exact Uniform.valued hφ v₀ o _ _ (by decide) ValueForm.any_clear fun p x hp hx =>
        (hx.between _ _).append (hp.between _ _)
    · exact Uniform.bare hφ v₀ o _ _ (by decide) fun x hx => hx.between _ _
    · exact Uniform.bare hφ v₀ o _ _ (by decide) fun x hx => hx.audioPlayer
  · rintro r (rfl | rfl | rfl)
    · exact Uniform.valued hφ v₀ o _ _ (by decide) ValueForm.any_clear fun p x hp hx =>
        (hp.between _ _).append (hx.between _ _)
    · exact Uniform.bare hφ v₀ o _ _ (by decide) fun x hx => hx.between _ _
    · exact Uniform.bare hφ v₀ o _ _ (by decide) fun x hx => (htrim hx).between _ _
  · rintro r (rfl | rfl)
    · exact Uniform.dropBreakAfter hφ v₀ o _ _ (by decide) (by decide)
    · exact Uniform.dropBreakAfter hφ v₀ o _ _ (by decide) (by decide)

end

end BBCode
