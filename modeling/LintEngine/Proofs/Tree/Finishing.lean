import LintEngine.Proofs.Tree.Ranges
import LintEngine.Proofs.Tree.Scopes
import Mathlib.Data.Finset.Card
import Mathlib.Data.Finset.Range
import Mathlib.Data.Prod.Lex

/-!
The order in which the nodes of a tree are finished when it is walked. A node is
finished after everything below it and after everything that stands before it,
apart from the nodes around it. A simple name that means a local variable means one
that is finished before the use of the name, so following names and going down leads
to ever smaller ranks in this order.

The order can be read off the indices: of two nodes, the one whose subtree ends at the
smaller index is finished first, and if both end at the same index, the smaller subtree.
-/

namespace LintEngine

namespace Tree

variable {t : Tree} {n m u c d p : NodeId} {y : String}

def Finishes (t : Tree) (n u : NodeId) : Prop :=
  u ∈ t.ancestors n ∨ (n < u ∧ n ∉ t.selfAndAncestors u)

instance : Decidable (t.Finishes n u) := inferInstanceAs (Decidable (_ ∨ _))

def rank (t : Tree) (u : NodeId) : Nat :=
  ((Finset.range t.size).filter fun n => t.Finishes n u).card

/-- The last index below a node, and then how many nodes there are below it. -/
def extent (t : Tree) (n : NodeId) : Nat ×ₗ Nat := toLex (t.last n, (t.descendants n).length)

theorem not_finishes_self : ¬t.Finishes n n := by
  rintro (h | h)
  · exact Nat.lt_irrefl n (lt_of_mem_ancestors h)
  · exact Nat.lt_irrefl n h.1

theorem rank_le_size : t.rank u ≤ t.size := by
  refine (Finset.card_filter_le _ _).trans ?_
  rw [Finset.card_range]

/-- Searching for a name goes on in the scope around. -/
theorem resolveThrough_cons (child scope : NodeId) (scopes : List NodeId) :
    t.resolveThrough y child (scope :: scopes) =
      (t.declaredIn scope child y).or (t.resolveThrough y scope scopes) := by
  rw [resolveThrough]
  cases t.declaredIn scope child y <;> rfl

theorem resolveLocal_of_parent_eq_none (h : t.parent u = none) : t.resolveLocal y u = none := by
  rw [resolveLocal, ancestors_eq_nil h, resolveThrough]

namespace Ordered

variable (h : t.Ordered)

include h

theorem finishes_trans (hn : n < t.size) (hm : m < t.size) (hu : u < t.size)
    (h₁ : t.Finishes n m) (h₂ : t.Finishes m u) : t.Finishes n u := by
  rcases h₁ with hbelow | ⟨hlt, hout⟩
  · have hmem : m ∈ t.selfAndAncestors n := mem_selfAndAncestors_of_mem hbelow
    rcases h₂ with hbelow' | ⟨hlt', hout'⟩
    · have hmem' := mem_selfAndAncestors_trans (mem_selfAndAncestors_of_mem hbelow') hmem
      have hlt := Nat.lt_trans (lt_of_mem_ancestors hbelow') (lt_of_mem_ancestors hbelow)
      exact .inl ((List.mem_cons.mp hmem').resolve_left (Nat.ne_of_lt hlt))
    · -- `u` would otherwise stand among the nodes below `m`
      refine .inr ⟨Nat.lt_of_not_le fun hle => ?_, fun hmem' => ?_⟩
      · exact hout' (h.mem_selfAndAncestors_of_le hmem hn (Nat.le_of_lt hlt') hle)
      · exact hout' (mem_selfAndAncestors_trans hmem hmem')
  · rcases h₂ with hbelow' | ⟨hlt', hout'⟩
    · have hmem : u ∈ t.selfAndAncestors m := mem_selfAndAncestors_of_mem hbelow'
      rcases Nat.lt_trichotomy n u with hnu | rfl | hnu
      · exact .inr ⟨hnu, fun hmem' => hout (mem_selfAndAncestors_trans hmem' hmem)⟩
      · exact absurd hmem hout
      · have hmem' := h.mem_selfAndAncestors_of_le hmem hm (Nat.le_of_lt hnu) (Nat.le_of_lt hlt)
        exact .inl ((List.mem_cons.mp hmem').resolve_left (Nat.ne_of_lt hnu))
    · refine .inr ⟨Nat.lt_trans hlt hlt', fun hmem' => hout ?_⟩
      exact h.mem_selfAndAncestors_of_le hmem' hu (Nat.le_of_lt hlt) (Nat.le_of_lt hlt')

theorem rank_lt (hn : n < t.size) (hu : u < t.size) (hf : t.Finishes n u) :
    t.rank n < t.rank u := by
  refine Finset.card_lt_card ⟨fun m hm => ?_, fun hsub => ?_⟩
  · rw [Finset.mem_filter, Finset.mem_range] at hm ⊢
    exact ⟨hm.1, h.finishes_trans hm.1 hn hu hm.2 hf⟩
  · have hmem := hsub (Finset.mem_filter.mpr ⟨Finset.mem_range.mpr hn, hf⟩)
    exact not_finishes_self (Finset.mem_filter.mp hmem).2

theorem extent_lt (hn : n < t.size) (hu : u < t.size) (hf : t.Finishes n u) :
    t.extent n < t.extent u := by
  rw [extent, extent, Prod.Lex.toLex_lt_toLex]
  rcases hf with hbelow | ⟨hlt, hout⟩
  · have hmem : u ∈ t.selfAndAncestors (t.last n) :=
      mem_selfAndAncestors_trans (mem_selfAndAncestors_of_mem hbelow)
        (h.mem_selfAndAncestors_of_mem_descendants h.last_mem_descendants)
    have hle : t.last n ≤ t.last u :=
      h.le_last_of_mem_descendants hu ((h.mem_descendants hu).mpr ⟨h.last_lt_size hn, hmem⟩)
    rcases Nat.lt_or_eq_of_le hle with hlt | heq
    · exact .inl hlt
    · -- both subtrees end at the same index, and the upper one starts before the lower one
      refine .inr ⟨heq, ?_⟩
      have hstart := lt_of_mem_ancestors hbelow
      have hend := h.le_last hn
      rw [h.descendants_eq_range' hn, h.descendants_eq_range' hu, List.length_range',
        List.length_range', heq]
      omega
  · refine .inl (Nat.lt_of_lt_of_le (Nat.lt_of_not_le fun hle => hout ?_) (h.le_last hu))
    exact h.mem_selfAndAncestors_of_mem_descendants
      ((h.mem_descendants_iff_le hn).mpr ⟨Nat.le_of_lt hlt, hle⟩)

theorem finishes_of_mem_children (hc : c ∈ t.children n) : t.Finishes c n := by
  refine .inl ?_
  rw [h.ancestors_of_parent (h.mem_children.mp hc)]
  exact self_mem_selfAndAncestors

/-! ### Simple names -/

theorem resolveLocal_of_parent (hp : t.parent u = some p) :
    t.resolveLocal y u = (t.declaredIn p u y).or (t.resolveLocal y p) := by
  rw [resolveLocal, h.ancestors_of_parent hp, selfAndAncestors, resolveThrough_cons]
  rfl

/-- A name is answered by a scope around its use. -/
theorem exists_of_resolveLocal (hd : t.resolveLocal y u = some d) :
    ∃ child ∈ t.selfAndAncestors u, ∃ scope, t.parent child = some scope ∧
      t.declaredIn scope child y = some d := by
  induction u using Nat.strongRecOn with
  | _ u ih =>
      cases hp : t.parent u with
      | none =>
          rw [resolveLocal_of_parent_eq_none hp] at hd
          cases hd
      | some p =>
          rw [h.resolveLocal_of_parent hp, Option.or_eq_some_iff] at hd
          rcases hd with hd | ⟨-, hd⟩
          · exact ⟨u, self_mem_selfAndAncestors, p, hp, hd⟩
          · obtain ⟨child, hchild, hrest⟩ := ih p (h.parent_lt hp).1 hd
            refine ⟨child, mem_selfAndAncestors_of_mem ?_, hrest⟩
            rw [h.ancestors_of_parent hp]
            exact hchild

/-- A scope offers only variables that are declared before. -/
theorem lt_of_declaredIn (hd : t.declaredIn p c y = some d) (hkind : t.kind d = .localVariable) :
    d < c := by
  rw [declaredIn] at hd
  split at hd
  case h_4 =>
    have hmem := List.mem_reverse.mp (of_find?_named hd).1
    split at hmem
    · rename_i hc
      obtain ⟨before, after, hsplit⟩ := List.append_of_mem (List.contains_iff_mem.mp hc)
      have hsorted := h.children_sorted (n := p)
      rw [hsplit] at hmem hsorted
      have hbefore := List.pairwise_append.mp hsorted
      rw [List.takeWhile_append_of_pos, List.takeWhile_cons_of_neg (by simp),
        List.append_nil] at hmem
      · exact hbefore.2.2 d hmem c List.mem_cons_self
      · intro b hb
        exact bne_iff_ne.mpr (Nat.ne_of_lt (hbefore.2.2 b hb c List.mem_cons_self))
    · cases hmem
  all_goals
    obtain ⟨-, hother, -⟩ := of_find?_named hd
    simp [hkind] at hother

/-- The variable that a name means stands before the use of the name, and not around
it. -/
theorem before_of_resolveLocal (hd : t.resolveLocal y u = some d)
    (hkind : t.kind d = .localVariable) : d < u ∧ d ∉ t.selfAndAncestors u := by
  obtain ⟨child, hchild, scope, hscope, hdeclared⟩ := h.exists_of_resolveLocal hd
  have hlt := h.lt_of_declaredIn hdeclared hkind
  have hparent := h.mem_children.mp (of_declaredIn hdeclared).1
  refine ⟨Nat.lt_of_lt_of_le hlt (le_of_mem_selfAndAncestors hchild), fun hmem => ?_⟩
  exact Nat.ne_of_lt hlt (h.child_eq_of_mem hparent hscope hmem hchild)

/-- What is around a declaration is around every use of its name. -/
theorem mem_selfAndAncestors_of_resolveLocal (hd : t.resolveLocal y u = some d)
    (hn : n ∈ t.ancestors d) : n ∈ t.selfAndAncestors u := by
  obtain ⟨child, hchild, scope, hscope, hdeclared⟩ := h.exists_of_resolveLocal hd
  rw [h.ancestors_of_parent (h.mem_children.mp (of_declaredIn hdeclared).1),
    ← h.ancestors_of_parent hscope] at hn
  exact mem_selfAndAncestors_trans (mem_selfAndAncestors_of_mem hn) hchild

end Ordered

end Tree

end LintEngine
