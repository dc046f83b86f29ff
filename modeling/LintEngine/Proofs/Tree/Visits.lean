import LintEngine.Proofs.Tree.PreOrder
import Mathlib.Data.List.Perm.Basic

/-!
The walk through a tree: a node is entered, then its children are walked, and
then it is left.

`Tree.IsWalk` says what a walk is without saying how it is made. Nodes are
entered in the order of their indices. They are left in post-order, that is,
after everything below them and otherwise in the order of their indices. And
what happens at a node happens between entering and leaving each node above
it.
-/

namespace LintEngine

open scoped List

inductive Visit where
  | enter (node : NodeId)
  | leave (node : NodeId)
deriving DecidableEq, Repr

namespace Visit

def entered? : Visit → Option NodeId
  | enter n => some n
  | leave _ => none

def left? : Visit → Option NodeId
  | enter _ => none
  | leave n => some n

end Visit

namespace Tree

def visits (t : Tree) (n : NodeId) : List Visit :=
  .enter n :: ((t.children n).flatMap fun c => if _ : t.Below n c then visits t c else []) ++
    [.leave n]
termination_by t.size - n
decreasing_by exact size_sub_lt_of_below ‹_›

/-- Whether node `a` is left before node `b` in post-order: it is below `b`, or
it stands before `b` and not above it. -/
def LeftBefore (t : Tree) (a b : NodeId) : Prop :=
  b ∈ t.ancestors a ∨ (a < b ∧ a ∉ t.ancestors b)

structure IsWalk (t : Tree) (visits : List Visit) : Prop where
  entered : visits.filterMap Visit.entered? = List.range t.size
  left : (visits.filterMap Visit.left?).Perm (List.range t.size)
  postOrder : (visits.filterMap Visit.left?).Pairwise t.LeftBefore
  own : ∀ n < t.size, [.enter n, .leave n] <+ visits
  nested : ∀ n m, m < t.size → n ∈ t.ancestors m →
    [.enter n, .enter m, .leave m, .leave n] <+ visits

namespace Ordered

variable {t : Tree} {n m : Nat} (h : t.Ordered)

include h

theorem visits_eq :
    t.visits n = .enter n :: (t.children n).flatMap t.visits ++ [.leave n] := by
  rw [visits, h.flatMap_children]

/-- Induction from the leaves to the root. -/
theorem childInduction {motive : Nat → Prop} (hn : n < t.size)
    (step : ∀ n, n < t.size → (∀ c, c ∈ t.children n → motive c) → motive n) : motive n := by
  induction hs : t.size - n using Nat.strongRecOn generalizing n with
  | _ s ih =>
      refine step n hn fun c hc => ?_
      obtain ⟨hlt, hcs⟩ := h.parent_lt (h.mem_children.mp hc)
      exact ih _ (by omega) hcs rfl

theorem entered_visits (hn : n < t.size) :
    (t.visits n).filterMap Visit.entered? = t.descendants n := by
  refine h.childInduction (motive := fun n => (t.visits n).filterMap Visit.entered? =
    t.descendants n) hn fun n _ ih => ?_
  rw [h.visits_eq, h.descendants_eq, List.filterMap_append, List.filterMap_cons,
    List.filterMap_flatMap]
  simp only [Visit.entered?, List.filterMap_cons, List.filterMap_nil, List.append_nil]
  exact congrArg (n :: ·) (List.flatMap_congr ih)

theorem left_visits_eq :
    (t.visits n).filterMap Visit.left? =
      ((t.children n).flatMap fun c => (t.visits c).filterMap Visit.left?) ++ [n] := by
  rw [h.visits_eq, List.filterMap_append, List.filterMap_cons, List.filterMap_flatMap]
  rfl

theorem left_visits_perm (hn : n < t.size) :
    ((t.visits n).filterMap Visit.left?).Perm (t.descendants n) := by
  refine h.childInduction (motive := fun n => ((t.visits n).filterMap Visit.left?).Perm
    (t.descendants n)) hn fun n _ ih => ?_
  rw [h.left_visits_eq, h.descendants_eq]
  exact (List.perm_append_singleton ..).trans ((List.Perm.flatMap_left _ ih).cons n)

theorem mem_left_visits (hn : n < t.size) :
    m ∈ (t.visits n).filterMap Visit.left? ↔ m < t.size ∧ n ∈ t.selfAndAncestors m := by
  rw [(h.left_visits_perm hn).mem_iff, h.mem_descendants hn]

theorem left_visits_postOrder (hn : n < t.size) :
    ((t.visits n).filterMap Visit.left?).Pairwise t.LeftBefore := by
  refine h.childInduction (motive := fun n => ((t.visits n).filterMap Visit.left?).Pairwise
    t.LeftBefore) hn fun n hn ih => ?_
  have hsize : ∀ c ∈ t.children n, c < t.size := fun c hc => (h.below_of_mem_children hc).2
  rw [h.left_visits_eq, List.pairwise_append, List.pairwise_flatMap]
  refine ⟨⟨ih, ?_⟩, List.pairwise_singleton .., ?_⟩
  -- the subtree of an earlier child is left before that of a later one
  · refine h.children_sorted.imp_of_mem fun {c₁ c₂} hc₁ hc₂ hlt a ha b hb => .inr ?_
    obtain ⟨has, ha⟩ := (h.mem_left_visits (hsize _ hc₁)).mp ha
    obtain ⟨-, hb⟩ := (h.mem_left_visits (hsize _ hc₂)).mp hb
    have hp₁ := h.mem_children.mp hc₁
    have hp₂ := h.mem_children.mp hc₂
    refine ⟨h.lt_of_children_lt hp₁ hp₂ hlt ha has hb, fun hab => ?_⟩
    have hc₁b := mem_selfAndAncestors_trans ha (mem_selfAndAncestors_of_mem hab)
    exact absurd (h.child_eq_of_mem hp₁ hp₂ hc₁b hb) (Nat.ne_of_lt hlt)
  · intro a ha b hb
    obtain ⟨c, hc, ha⟩ := List.mem_flatMap.mp ha
    obtain ⟨has, hca⟩ := (h.mem_left_visits (hsize c hc)).mp ha
    rw [List.mem_singleton.mp hb]
    refine .inl ?_
    have hnc : n ∈ t.ancestors c := by
      rw [h.ancestors_of_parent (h.mem_children.mp hc)]
      exact self_mem_selfAndAncestors
    have hna : n ∈ t.selfAndAncestors a :=
      mem_selfAndAncestors_trans (mem_selfAndAncestors_of_mem hnc) hca
    refine (List.mem_cons.mp hna).resolve_left fun heq => ?_
    rw [← heq] at hca
    exact absurd (lt_of_mem_ancestors hnc) (Nat.not_lt.mpr (le_of_mem_selfAndAncestors hca))

/-! ### What stands between entering and leaving -/

theorem enter_leave_sublist : [.enter n, .leave n] <+ t.visits n := by
  rw [h.visits_eq, List.cons_append]
  exact (List.sublist_append_right _ _).cons_cons _

theorem visits_sublist_of_child {c : Nat} (hc : c ∈ t.children n) :
    .enter n :: t.visits c ++ [.leave n] <+ t.visits n := by
  rw [h.visits_eq (n := n), List.flatMap]
  refine List.Sublist.append_right (List.Sublist.cons_cons _ ?_) _
  exact List.sublist_flatten_of_mem (List.mem_map_of_mem hc)

theorem visits_sublist (hm : m < t.size) (hn : n ∈ t.selfAndAncestors m) :
    t.visits m <+ t.visits n := by
  have hle := le_of_mem_selfAndAncestors hn
  refine h.childInduction (motive := fun n => n ∈ t.selfAndAncestors m → t.visits m <+ t.visits n)
    (Nat.lt_of_le_of_lt hle hm) (fun n _ ih hn => ?_) hn
  rcases List.mem_cons.mp hn with rfl | hn
  · exact List.Sublist.refl _
  · obtain ⟨c, hc, hcm⟩ := h.exists_child_of_mem_ancestors hn
    have hc := h.mem_children.mpr hc
    have hinner : t.visits c <+ .enter n :: t.visits c ++ [.leave n] :=
      (List.sublist_cons_self ..).trans (List.sublist_append_left ..)
    exact ((ih c hc hcm).trans hinner).trans (h.visits_sublist_of_child hc)

theorem nested_sublist (hm : m < t.size) (hn : n ∈ t.ancestors m) :
    [.enter n, .enter m, .leave m, .leave n] <+ t.visits n := by
  obtain ⟨c, hc, hcm⟩ := h.exists_child_of_mem_ancestors hn
  have hinner : [.enter m, .leave m] <+ t.visits c :=
    h.enter_leave_sublist.trans (h.visits_sublist hm hcm)
  exact ((hinner.cons_cons _).append_right [.leave n]).trans
    (h.visits_sublist_of_child (h.mem_children.mpr hc))

theorem isWalk : t.IsWalk (t.visits root) where
  entered := (h.entered_visits h.pos).trans h.descendants_root
  left := by
    rw [← h.descendants_root]
    exact h.left_visits_perm h.pos
  postOrder := h.left_visits_postOrder h.pos
  own n hn := h.enter_leave_sublist.trans (h.visits_sublist hn (h.root_mem_selfAndAncestors hn))
  nested n m hm hn :=
    have hns : n < t.size := Nat.lt_trans (lt_of_mem_ancestors hn) hm
    (h.nested_sublist hm hn).trans (h.visits_sublist hns (h.root_mem_selfAndAncestors hns))

end Ordered

end Tree

end LintEngine
