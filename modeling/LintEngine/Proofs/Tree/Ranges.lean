import LintEngine.Proofs.Tree.PreOrder
import Mathlib.Data.List.Pairwise

/-!
What pre-order says about indices: the subtree of a node is the range from the
node to the last index below it, so a question about ancestors is a comparison
of numbers.

A builder is used by performing operations one after the other, in any order.
Whatever they are, the tree that comes out is well-formed, which
`Tree.IsPreOrder` says without a word on how trees are built.
-/

namespace LintEngine

namespace Tree

def last (t : Tree) (n : NodeId) : NodeId := (t.descendants n).getLastD n

/-- The links of a tree fit together, and its indices are in pre-order. -/
structure IsPreOrder (t : Tree) : Prop where
  parent_root : t.parent root = none
  /-- Every other node hangs below one with a smaller index. -/
  parent_lt : ∀ n ∈ t.ids, n ≠ root → ∃ p, t.parent n = some p ∧ p < n ∧ n ∈ t.children p
  /-- The lists of children hold all nodes but the root, and each of them once. -/
  children_once : (t.ids.flatMap t.children).Perm (List.range' 1 (t.size - 1))
  children_sorted : ∀ n, (t.children n).Pairwise (· < ·)
  /-- A subtree is read off as a range of indices that starts at its top. -/
  descendants_range : ∀ n ∈ t.ids, t.descendants n = List.range' n (t.descendants n).length
  descendants_iff : ∀ n ∈ t.ids, ∀ m ∈ t.ids, m ∈ t.descendants n ↔ n ∈ t.selfAndAncestors m

variable {t : Tree} {n m c : Nat}

namespace Ordered

variable (h : t.Ordered)

include h

theorem last_mem_descendants : t.last n ∈ t.descendants n := by
  have hne : t.descendants n ≠ [] := List.ne_nil_of_mem h.self_mem_descendants
  rw [last, List.getLastD_eq_getLast?, List.getLast?_eq_some_getLast hne]
  exact List.getLast_mem hne

theorem last_lt_size (hn : n < t.size) : t.last n < t.size :=
  ((h.mem_descendants hn).mp h.last_mem_descendants).1

theorem le_last_of_mem_descendants (hn : n < t.size) (hm : m ∈ t.descendants n) :
    m ≤ t.last n := by
  have hsorted : (t.descendants n).Pairwise (· ≤ ·) :=
    (h.descendants_sorted hn).imp Nat.le_of_lt
  rw [last, List.getLastD_eq_getLast?, List.getLast?_eq_some_getLast (List.ne_nil_of_mem hm)]
  exact hsorted.rel_getLast hm

theorem le_last (hn : n < t.size) : n ≤ t.last n :=
  h.le_last_of_mem_descendants hn h.self_mem_descendants

/-- To be below a node is to stand between it and its last index. -/
theorem mem_descendants_iff_le (hn : n < t.size) :
    m ∈ t.descendants n ↔ n ≤ m ∧ m ≤ t.last n := by
  constructor
  · intro hm
    exact ⟨le_of_mem_selfAndAncestors ((h.mem_descendants hn).mp hm).2,
      h.le_last_of_mem_descendants hn hm⟩
  · rintro ⟨hnm, hml⟩
    obtain ⟨hlast, hchain⟩ := (h.mem_descendants hn).mp h.last_mem_descendants
    exact (h.mem_descendants hn).mpr
      ⟨Nat.lt_of_le_of_lt hml hlast, h.mem_selfAndAncestors_of_le hchain hlast hnm hml⟩

theorem descendants_eq_range' (hn : n < t.size) :
    t.descendants n = List.range' n (t.last n + 1 - n) := by
  refine (h.descendants_sorted hn).eq_of_mem_iff List.pairwise_lt_range' fun m => ?_
  rw [h.mem_descendants_iff_le hn, List.mem_range'_1]
  omega

theorem mem_children_ids :
    c ∈ t.ids.flatMap t.children ↔ 1 ≤ c ∧ c < t.size := by
  simp only [List.mem_flatMap, h.mem_children, ids, List.mem_range]
  constructor
  · rintro ⟨p, -, hp⟩
    obtain ⟨hlt, hc⟩ := h.parent_lt hp
    exact ⟨Nat.lt_of_le_of_lt (Nat.zero_le p) hlt, hc⟩
  · rintro ⟨hpos, hc⟩
    obtain ⟨p, hp, -⟩ := h.parent_mem (c - 1) (by omega)
    rw [Nat.sub_add_cancel hpos] at hp
    exact ⟨p, Nat.lt_trans (h.parent_lt hp).1 hc, hp⟩

theorem nodup_children_ids : (t.ids.flatMap t.children).Nodup := by
  refine List.nodup_flatMap.mpr ⟨fun n _ => h.children_sorted.imp Nat.ne_of_lt, ?_⟩
  refine List.nodup_range.imp fun {p q} hpq c hp hq => hpq ?_
  have heq : some p = some q := (h.mem_children.mp hp).symm.trans (h.mem_children.mp hq)
  exact Option.some.inj heq

theorem isPreOrder : t.IsPreOrder where
  parent_root := h.parent_root
  parent_lt := by
    intro n hn hne
    have hmem : n ∈ t.ids.flatMap t.children :=
      h.mem_children_ids.mpr ⟨Nat.pos_of_ne_zero hne, List.mem_range.mp hn⟩
    obtain ⟨p, -, hp⟩ := List.mem_flatMap.mp hmem
    have hparent := h.mem_children.mp hp
    exact ⟨p, hparent, (h.parent_lt hparent).1, hp⟩
  children_once := by
    refine (List.perm_ext_iff_of_nodup h.nodup_children_ids List.nodup_range').mpr fun c => ?_
    have hpos := h.pos
    rw [h.mem_children_ids, List.mem_range'_1]
    omega
  children_sorted := fun _ => h.children_sorted
  descendants_range := by
    intro n hn
    have hrange := h.descendants_eq_range' (List.mem_range.mp hn)
    have hlength := congrArg List.length hrange
    rw [List.length_range'] at hlength
    rw [hlength]
    exact hrange
  descendants_iff := by
    intro n hn m hm
    rw [h.mem_descendants (List.mem_range.mp hn)]
    exact and_iff_right (List.mem_range.mp hm)

end Ordered

end Tree

namespace Builder

inductive Operation
  | enter (p : Payload)
  | leaf (p : Payload)
  | leave
  | setQualifier (id child : NodeId)

def Operation.apply (b : Builder) : Operation → Builder
  | enter p => b.enter p
  | leaf p => b.leaf p
  | leave => b.leave
  | setQualifier id child => b.setQualifier id child

def perform (b : Builder) (operations : List Operation) : Builder :=
  operations.foldl Operation.apply b

variable {b : Builder}

theorem Made.apply (h : b.Made) (o : Operation) : (o.apply b).Made := by
  cases o with
  | enter p => exact h.enter p
  | leaf p => exact h.leaf p
  | leave => exact h.leave
  | setQualifier id child => exact h.setQualifier id child

theorem Made.perform (h : b.Made) (operations : List Operation) : (b.perform operations).Made := by
  induction operations generalizing b with
  | nil => exact h
  | cons o operations ih => exact ih (h.apply o)

/-- Whatever is done to a builder, it makes a well-formed tree whose indices
are in pre-order. -/
theorem perform_isPreOrder (file : Path) (phase : Phase) (scope : Scope) (source : Option String)
    (imports : Imports) (operations : List Operation) :
    ((start file phase scope source imports).perform operations).build.IsPreOrder :=
  ((Made.start file phase scope source imports).perform operations).ordered.isPreOrder

/-- Leaving the root again and again changes nothing: what comes next still
hangs below it. -/
example :
    ((start ⟨"a.xml"⟩ .xml .resourceFile none {}).perform
      [.enter {}, .leave, .leave, .leave, .leaf {}]).build.children Tree.root = [1, 2] := by
  decide +kernel

end Builder

end LintEngine
