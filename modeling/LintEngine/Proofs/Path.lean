import LintEngine.Path
import Mathlib.Order.Basic

/-!
The order of paths. Paths are compared by their components, and components by
form and name, so the order is lexicographic all the way down, and equal paths
are those with the same components.
-/

namespace LintEngine.Path

open Std

theorem beq_iff {p q : Path} : (p == q) = true ↔ p.components = q.components :=
  beq_iff_eq (a := p.components)

instance : TransCmp Component.compare :=
  inferInstanceAs (TransCmp (compareLex (compareOn Component.rank) (compareOn Component.name)))

theorem compareComponents_eq (as bs : List Component) :
    compareComponents as bs = List.compareLex Component.compare as bs := by
  induction as generalizing bs with
  | nil => cases bs <;> rfl
  | cons a as ih =>
      cases bs with
      | nil => rfl
      | cons b bs => rw [compareComponents, List.compareLex_cons_cons, ih]

instance : TransCmp compareComponents := by
  have h : compareComponents = List.compareLex Component.compare :=
    funext fun as => funext fun bs => compareComponents_eq as bs
  rw [h]
  infer_instance

instance : LawfulEqCmp Component.compare where
  compare_self {a} := by simp [Component.compare]
  eq_of_compare {a b} h := by
    obtain ⟨hrank, hname⟩ := Ordering.then_eq_eq.mp h
    have hrank : a.rank = b.rank := LawfulEqOrd.eq_of_compare hrank
    have hname : a.name = b.name := LawfulEqOrd.eq_of_compare hname
    cases a <;> cases b <;> simp_all [Component.rank, Component.name]

theorem compare_eq_eq_iff {p q : Path} : compare p q = .eq ↔ p.components = q.components := by
  rw [compare, compareComponents_eq]
  exact LawfulEqCmp.compare_eq_iff_eq

instance : TransOrd Path where
  eq_swap {p q} := @OrientedCmp.eq_swap _ compareComponents _ p.components q.components
  isLE_trans {p q r} :=
    @TransCmp.isLE_trans _ compareComponents _ p.components q.components r.components

end LintEngine.Path
