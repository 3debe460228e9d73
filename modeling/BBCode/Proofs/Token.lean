import BBCode.Proofs.Tag.Grammar
import BBCode.Proofs.Text.Bytes
import Mathlib.Data.List.Chain

/-!
# BBCode.Proofs.Token

Texts and their tokens say the same. Writing tokens one after the other undoes the lexer, and the
lexer undoes writing where no two neighbours read as one: text runs do not touch, and a run behind a
bracket does not start with the slash that would make the bracket a closing one.

* `canonical_lex`: the tokens of a text are such a list.
* `lex_flatMap_source`: such a list is read back from what it spells.
* `lex_exact`: both, with the bytes that each token takes.
-/

namespace BBCode

namespace Token

/-- A token can stand in front of another without the two reading as something else: text does not
stand in front of text, and an opening bracket not in front of a slash. -/
def Parted (t u : Token) : Prop :=
  ∀ run, u = text run → (∀ r, t ≠ text r) ∧ (t = openBracket → run.head? ≠ some '/')

/-- A list of tokens that are read as they are written. Of the tokens only text runs can be spelled
in more than one way, so only they have to be told what to hold. -/
structure Canonical (ts : List Token) : Prop where
  runs : ∀ run, text run ∈ ts → run ≠ [] ∧ '[' ∉ run ∧ ']' ∉ run ∧ '=' ∉ run
  seams : ts.IsChain Parted

variable {t : Token} {ts : List Token} {run : Text}

theorem isMark_eq_false_iff {c : Char} : isMark c = false ↔ c ≠ '[' ∧ c ≠ ']' ∧ c ≠ '=' := by
  simp [isMark, and_assoc]

theorem plain_iff :
    (∀ c ∈ run, isMark c = false) ↔ '[' ∉ run ∧ ']' ∉ run ∧ '=' ∉ run := by
  simp only [isMark_eq_false_iff]
  constructor
  · intro h
    exact ⟨fun hm => (h _ hm).1 rfl, fun hm => (h _ hm).2.1 rfl, fun hm => (h _ hm).2.2 rfl⟩
  · rintro ⟨h1, h2, h3⟩ c hc
    exact ⟨fun heq => h1 (heq ▸ hc), fun heq => h2 (heq ▸ hc), fun heq => h3 (heq ▸ hc)⟩

/-- A token that is no text starts with a mark. -/
theorem mark_of_not_text (ht : ∀ run, t ≠ text run) :
    ∃ c r, t.source = c :: r ∧ isMark c = true := by
  cases t with
  | text run => exact absurd rfl (ht run)
  | openBracket => exact ⟨'[', [], rfl, by decide⟩
  | openSlash => exact ⟨'[', ['/'], rfl, by decide⟩
  | closeBracket => exact ⟨']', [], rfl, by decide⟩
  | equals => exact ⟨'=', [], rfl, by decide⟩

namespace Canonical

theorem nil : Canonical [] := ⟨by simp, .nil⟩

theorem tail (h : Canonical (t :: ts)) : Canonical ts :=
  ⟨fun run hrun => h.runs run (.tail _ hrun), h.seams.tail⟩

theorem parted {u : Token} (h : Canonical (t :: u :: ts)) : Parted t u :=
  (List.isChain_cons.1 h.seams).1 u rfl

/-- A token that is no text can stand in front of whatever it is parted from. -/
theorem cons (ht : ∀ run, t ≠ text run) (hseam : ∀ u ∈ ts.head?, Parted t u)
    (h : Canonical ts) : Canonical (t :: ts) := by
  refine ⟨fun run hrun => ?_, List.isChain_cons.2 ⟨hseam, h.seams⟩⟩
  rcases List.mem_cons.1 hrun with heq | hrun
  · exact absurd heq.symm (ht run)
  · exact h.runs run hrun

/-- Any mark but an opening bracket can stand in front of whatever comes. -/
theorem mark (ht : ∀ run, t ≠ text run) (hbracket : t ≠ openBracket) (h : Canonical ts) :
    Canonical (t :: ts) :=
  h.cons ht fun _ _ _ _ => ⟨ht, fun heq => absurd heq hbracket⟩

/-- A character that is no mark becomes a run or lengthens the run behind it. -/
theorem joinChar {c : Char} (hc : isMark c = false) (h : Canonical ts) :
    Canonical (joinChar c ts) := by
  have hone : ∀ run, (∀ d ∈ run, isMark d = false) →
      c :: run ≠ [] ∧ '[' ∉ c :: run ∧ ']' ∉ c :: run ∧ '=' ∉ c :: run := fun run hrun =>
    ⟨by simp, plain_iff.1 (List.forall_mem_cons.2 ⟨hc, hrun⟩)⟩
  fun_cases Token.joinChar c ts with
  | case1 run us =>
    refine ⟨fun r hr => ?_, List.isChain_cons.2 ⟨fun u hu => ?_, h.tail.seams⟩⟩
    · rcases List.mem_cons.1 hr with heq | hr
      · cases heq
        exact hone run (plain_iff.2 (h.runs run (.head _)).2)
      · exact h.runs r (.tail _ hr)
    · intro r hr
      exact absurd rfl (((List.isChain_cons.1 h.seams).1 u hu r hr).1 run)
  | case2 =>
    rename_i htext
    refine ⟨fun r hr => ?_, List.isChain_cons.2 ⟨fun u hu r hr => ?_, h.seams⟩⟩
    · rcases List.mem_cons.1 hr with heq | hr
      · cases heq
        exact hone [] (by simp)
      · exact h.runs r hr
    · obtain ⟨us, hus⟩ := List.head?_eq_some_iff.1 hu
      exact absurd (hus.trans (congrArg (· :: us) hr)) (htext r us)

/-- What a canonical list spells starts like the text run it starts with. -/
theorem head?_source (h : Canonical (text run :: ts)) :
    ((text run :: ts).flatMap source).head? = run.head? := by
  cases run with
  | nil => exact absurd rfl (h.runs [] (.head _)).1
  | cons c run => rfl

/-- Behind a text run stands a mark, or nothing. -/
theorem mark_of_source (h : Canonical (text run :: ts)) {c : Char} {r : Text}
    (hr : ts.flatMap source = c :: r) : isMark c = true := by
  cases ts with
  | nil => cases hr
  | cons t ts =>
    obtain ⟨d, q, hd, hmark⟩ : ∃ d q, t.source = d :: q ∧ isMark d = true :=
      mark_of_not_text fun r hr => (h.parted r hr).1 run rfl
    rw [List.flatMap_cons, hd, List.cons_append, List.cons.injEq] at hr
    exact hr.1 ▸ hmark

/-- Behind an opening bracket stands no slash. -/
theorem head?_ne_slash (h : Canonical (openBracket :: ts)) :
    (ts.flatMap source).head? ≠ some '/' := by
  cases ts with
  | nil => simp
  | cons t ts =>
    by_cases ht : ∃ run, t = text run
    · obtain ⟨run, rfl⟩ := ht
      rw [h.tail.head?_source]
      exact (h.parted run rfl).2 rfl
    · obtain ⟨d, q, hd, hmark⟩ := mark_of_not_text (not_exists.1 ht)
      rw [List.flatMap_cons, hd, List.cons_append, List.head?_cons]
      rintro ⟨⟩
      exact absurd hmark (by decide)

theorem source_ne_nil (h : Canonical ts) : ∀ t ∈ ts, t.source ≠ [] := by
  intro t ht
  by_cases htext : ∃ run, t = text run
  · obtain ⟨run, rfl⟩ := htext
    exact (h.runs run ht).1
  · obtain ⟨d, q, hd, -⟩ := mark_of_not_text (not_exists.1 htext)
    rw [hd]
    exact List.cons_ne_nil d q

end Canonical

/-- The tokens of a text are canonical. -/
theorem canonical_lex (s : Text) : Canonical (lex s) := by
  fun_induction lex s with
  | case1 => exact .nil
  | case2 s ih => exact ih.mark (by simp) (by simp)
  | case3 s hslash ih =>
    refine ih.cons (by simp) fun u hu run hrun => ⟨by simp, fun _ hhead => ?_⟩
    -- the run would start with the slash that stands behind the bracket
    obtain ⟨us, hus⟩ := List.head?_eq_some_iff.1 hu
    rw [hus, hrun] at ih
    have hsource := ih.head?_source
    rw [← hrun, ← hus, flatMap_source_lex, hhead] at hsource
    obtain ⟨r, rfl⟩ := List.head?_eq_some_iff.1 hsource
    exact hslash r rfl
  | case4 s ih => exact ih.mark (by simp) (by simp)
  | case5 s ih => exact ih.mark (by simp) (by simp)
  | case6 c s h1 h2 h3 h4 ih => exact ih.joinChar (isMark_eq_false_iff.2 ⟨h2, h3, h4⟩)

/-- A canonical list is read back from what it spells. -/
theorem lex_flatMap_source (h : Canonical ts) : lex (ts.flatMap source) = ts := by
  induction ts with
  | nil => rfl
  | cons t ts ih =>
    have ih := ih h.tail
    rw [List.flatMap_cons]
    cases t with
    | text run =>
      obtain ⟨hne, hplain⟩ := h.runs run (.head _)
      rw [source, lex_run (plain_iff.2 hplain) hne fun c r => h.mark_of_source, ih]
    | openBracket =>
      have hlex : lex ('[' :: ts.flatMap source) = openBracket :: lex (ts.flatMap source) :=
        lex_bracket h.head?_ne_slash
      exact hlex.trans (congrArg _ ih)
    | openSlash => exact congrArg (openSlash :: ·) ih
    | closeBracket => exact congrArg (closeBracket :: ·) ih
    | equals => exact congrArg (equals :: ·) ih

/-- The tokens of a text spell it, each the slice at its span, and the spans follow one another from
the first byte to the last; the list is canonical, and every canonical list is the tokens of what it
spells. So texts and canonical lists correspond one to one. -/
theorem lex_exact :
    (∀ s : Text, (lex s).flatMap source = s ∧
      (withSpans source 0 (lex s)).map Prod.fst = lex s ∧
      EndToEnd 0 (Text.toBytes s).length (withSpans source 0 (lex s)) ∧
      (∀ x ∈ withSpans source 0 (lex s), ∃ before after, s = before ++ x.1.source ++ after ∧
        x.2 = ⟨(Text.toBytes before).length, (Text.toBytes (before ++ x.1.source)).length⟩) ∧
      Canonical (lex s)) ∧
    ∀ ts, Canonical ts → lex (ts.flatMap source) = ts := by
  refine ⟨fun s => ⟨flatMap_source_lex s, map_fst_withSpans source 0 _, ?_, fun x hx => ?_,
    canonical_lex s⟩, fun ts => lex_flatMap_source⟩
  · exact withSpans_cover (flatMap_source_lex s) (canonical_lex s).source_ne_nil
  · exact withSpans_slice (flatMap_source_lex s) hx

/-- A slash behind a bracket belongs to the bracket, and the next one is text. -/
theorem lex_exact_slashes :
    Canonical [openBracket, openSlash, text "/é".toList, equals, text "/".toList] ∧
      lex "[[//é=/".toList = [openBracket, openSlash, text "/é".toList, equals, text "/".toList] ∧
      ¬ Canonical [openBracket, text "/".toList] := by
  have hcanonical :
      Canonical [openBracket, openSlash, text "/é".toList, equals, text "/".toList] := by
    refine ⟨fun run hrun => ?_, ?_⟩
    · simp only [List.mem_cons, List.not_mem_nil, or_false, reduceCtorEq, false_or,
        text.injEq] at hrun
      rcases hrun with rfl | rfl <;> decide
    · simp [Parted]
  refine ⟨hcanonical, lex_exact.2 _ hcanonical, fun h => ?_⟩
  exact (h.parted _ rfl).2 rfl (by decide)

end Token

end BBCode
