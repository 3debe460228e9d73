import BBCode.Path
import BBCode.Proofs.Text.Bytes
import Mathlib.Data.List.Lex

/-!
# BBCode.Proofs.Path.Order

The order of paths: component by component, names by their bytes. Paths are ordered as far as they
differ in their components, so a list in strict order is determined by what is in it.

* `before_or_before`: of two paths with different components one stands before the other.
* `pairwise_before_mergeSort`: sorting puts paths of different components into strict order.
* `eq_of_pairwise_before`: two lists in strict order with the same paths are the same list.
-/

namespace BBCode

namespace Component

variable {a b c : Component}

theorem orderKey_injective (h : a.orderKey = b.orderKey) : a = b := by
  have hbytes : Function.Injective (List.map UInt8.toNat) :=
    List.map_injective_iff.2 fun _ _ => UInt8.toNat_inj.1
  cases a with
  | name m =>
    cases b with
    | name n =>
      rw [orderKey, orderKey, List.cons.injEq] at h
      exact congrArg name (Text.toBytes_injective (hbytes h.2))
    | _ => simp [orderKey] at h
  | _ => cases b <;> first | rfl | simp [orderKey] at h

theorem before_iff : a.before b = true ↔ List.Lex (· < ·) a.orderKey b.orderKey := by
  rw [before, List.lex_eq_true_iff_lex]
  simp only [decide_eq_true_eq]

instance : Std.Asymm fun a b : Component => a.before b = true where
  asymm a b h h' := by
    rw [before_iff] at h h'
    exact Std.Asymm.asymm _ _ h h'

instance : Std.Trichotomous fun a b : Component => a.before b = true where
  trichotomous a b h h' := by
    rw [before_iff] at h h'
    exact orderKey_injective (Std.Trichotomous.trichotomous _ _ h h')

instance : IsOrderConnected Component fun a b => a.before b = true where
  conn a b c h := by
    rw [before_iff] at h ⊢
    rw [before_iff]
    exact IsOrderConnected.conn _ b.orderKey _ h

end Component

namespace Path

variable {p q r : Path} {ps qs : List Path}

theorem before_iff :
    p.before q = true ↔ List.Lex (fun a b => a.before b = true) p.components q.components :=
  List.lex_eq_true_iff_lex _

theorem before_asymm (h : p.before q = true) : ¬ q.before p = true := by
  rw [before_iff] at h ⊢
  exact Std.Asymm.asymm _ _ h

/-- Of two paths in order, any path stands behind the first or before the second. -/
theorem before_connected (h : p.before r = true) (q : Path) :
    p.before q = true ∨ q.before r = true := by
  rw [before_iff] at h
  simp only [before_iff]
  exact IsOrderConnected.conn _ q.components _ h

theorem before_or_before (h : p.components ≠ q.components) :
    p.before q = true ∨ q.before p = true := by
  by_contra hnot
  rw [not_or, before_iff, before_iff] at hnot
  exact h (Std.Trichotomous.trichotomous _ _ hnot.1 hnot.2)

theorem pairwise_before_mergeSort (h : ps.Pairwise fun p q => p.components ≠ q.components) :
    (ps.mergeSort fun p q => !q.before p).Pairwise fun p q => p.before q = true := by
  have hsorted : (ps.mergeSort fun p q => !q.before p).Pairwise fun p q => (!q.before p) = true := by
    refine List.pairwise_mergeSort (fun p q r hqp hrq => ?_) (fun p q => ?_) ps
    · rw [Bool.not_eq_true'] at hqp hrq ⊢
      by_contra hrp
      rw [Bool.not_eq_false] at hrp
      rcases before_connected hrp q with h | h
      · rw [h] at hrq
        cases hrq
      · rw [h] at hqp
        cases hqp
    · by_cases hqp : q.before p = true
      · simp [Bool.not_eq_true _ ▸ before_asymm hqp]
      · simp [hqp]
  have hdistinct := (List.mergeSort_perm ps fun p q => !q.before p).symm.pairwise h Ne.symm
  refine hsorted.imp₂ (fun p q hqp hne => ?_) hdistinct
  rw [Bool.not_eq_true'] at hqp
  rcases before_or_before hne with h | h
  · exact h
  · rw [h] at hqp
    cases hqp

theorem eq_of_pairwise_before (h : ps.Pairwise fun p q => p.before q = true)
    (h' : qs.Pairwise fun p q => p.before q = true) (hmem : ∀ p, p ∈ ps ↔ p ∈ qs) : ps = qs := by
  have hnodup {l : List Path} (hl : l.Pairwise fun p q => p.before q = true) : l.Nodup := by
    refine List.Pairwise.imp (fun {p q} hpq => ?_) hl
    rintro rfl
    exact before_asymm hpq hpq
  refine List.Perm.eq_of_pairwise (fun p q _ _ hpq hqp => absurd hqp (before_asymm hpq)) h h' ?_
  exact (List.perm_ext_iff_of_nodup (hnodup h) (hnodup h')).2 hmem

end Path

end BBCode
