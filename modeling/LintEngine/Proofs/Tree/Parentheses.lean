import LintEngine.Proofs.Tree.Scopes

/-!
Values in parentheses. Parentheses and casts pass on the value of their last child.
A node holds a value if it has it as a child in this sense; seen from the value, it
is the nearest node outward that is neither parenthesis nor cast. A value may flow
farther, through the branches of conditional expressions.
-/

namespace LintEngine

namespace Tree

variable {t : Tree} {c p q r d : NodeId}

inductive Passes (t : Tree) : NodeId → NodeId → Prop
  | self (n : NodeId) : Passes t n n
  | through {n inner m : NodeId} (hkind : (t.kind n).isTransparent = true)
      (hlast : (t.children n).getLast? = some inner) (h : Passes t inner m) : Passes t n m

/-- A node has the value of another one, perhaps in parentheses or cast, as a
child. -/
def Holds (t : Tree) (p r : NodeId) : Prop := ∃ c ∈ t.children p, t.Passes c r

/-- The value of a node is that of another one, or that of another one in some cases:
it comes through parentheses, casts and branches of conditional expressions. -/
inductive Flows (t : Tree) : NodeId → NodeId → Prop
  | self (n : NodeId) : Flows t n n
  | through {n inner m : NodeId} (hkind : (t.kind n).isTransparent = true)
      (hlast : (t.children n).getLast? = some inner) (h : Flows t inner m) : Flows t n m
  | branch {n inner m : NodeId} (hkind : t.kind n = .conditional) (hmem : inner ∈ t.children n)
      (hbranch : (t.children n).head? ≠ some inner) (h : Flows t inner m) : Flows t n m

theorem Passes.eq_of_not_isTransparent (h : t.Passes c r) (hc : (t.kind c).isTransparent = false) :
    r = c := by
  cases h with
  | self => rfl
  | through hkind => simp [hc] at hkind

theorem Passes.flows (h : t.Passes c r) : t.Flows c r := by
  induction h with
  | self n => exact .self n
  | through hkind hlast _ ih => exact .through hkind hlast ih

theorem not_isTransparent_of_kind {kind : NodeKind} (h : t.kind r = kind)
    (hkind : kind.isTransparent = false) : (t.kind r).isTransparent = false := h ▸ hkind

namespace Ordered

variable (h : t.Ordered)

include h

theorem skipParentheses_through {inner : NodeId} (hkind : (t.kind c).isTransparent = true)
    (hlast : (t.children c).getLast? = some inner) :
    t.skipParentheses c = t.skipParentheses inner := by
  rw [skipParentheses, if_pos hkind]
  simp only [hlast]
  rw [dif_pos (h.below_of_mem_children (List.mem_of_getLast? hlast))]

theorem passes_skipParentheses (c : NodeId) : t.Passes c (t.skipParentheses c) := by
  induction hs : t.size - c using Nat.strongRecOn generalizing c with
  | _ s ih =>
      cases hkind : (t.kind c).isTransparent with
      | false =>
          rw [skipParentheses, if_neg (by simp [hkind])]
          exact .self c
      | true =>
          cases hlast : (t.children c).getLast? with
          | none =>
              rw [skipParentheses, if_pos hkind, hlast]
              exact .self c
          | some inner =>
              have hbelow := h.below_of_mem_children (List.mem_of_getLast? hlast)
              rw [h.skipParentheses_through hkind hlast]
              exact .through hkind hlast (ih _ (hs ▸ size_sub_lt_of_below hbelow) inner rfl)

theorem mem_descendants_of_passes {n m : NodeId} (hpasses : t.Passes n m) :
    m ∈ t.descendants n := by
  induction hpasses with
  | self n => exact h.self_mem_descendants
  | through _ hlast _ ih => exact h.mem_descendants_of_child (List.mem_of_getLast? hlast) ih

theorem skipParentheses_eq_iff (hr : (t.kind r).isTransparent = false) :
    t.skipParentheses c = r ↔ t.Passes c r := by
  constructor
  · rintro rfl
    exact h.passes_skipParentheses c
  · intro hpasses
    induction hpasses with
    | self n => rw [skipParentheses, if_neg (by simp [hr])]
    | through hkind hlast _ ih => rw [h.skipParentheses_through hkind hlast, ih hr]

/-- The search outward starts as well at what passes the value on. -/
theorem skipParenthesesUp_of_passes (hpasses : t.Passes c r) :
    t.skipParenthesesUp r = t.skipParenthesesUp c := by
  induction hpasses with
  | self => rfl
  | through hkind hlast _ ih =>
      have hparent := h.mem_children.mp (List.mem_of_getLast? hlast)
      rw [ih, skipParenthesesUp, h.ancestors_of_parent hparent, selfAndAncestors,
        List.find?_cons_of_neg (by simp [hkind])]
      rfl

theorem skipParenthesesUp_of_parent (hparent : t.parent c = some p)
    (hp : (t.kind p).isTransparent = false) : t.skipParenthesesUp c = some p := by
  rw [skipParenthesesUp, h.ancestors_of_parent hparent, selfAndAncestors,
    List.find?_cons_of_pos (by simp [hp])]

/-- The node that holds a value is the nearest one that is neither parenthesis nor
cast. -/
theorem skipParenthesesUp_of_holds (hholds : t.Holds p r)
    (hp : (t.kind p).isTransparent = false) : t.skipParenthesesUp r = some p := by
  obtain ⟨c, hc, hpasses⟩ := hholds
  rw [h.skipParenthesesUp_of_passes hpasses,
    h.skipParenthesesUp_of_parent (h.mem_children.mp hc) hp]

theorem any_skipParentheses_iff (hr : (t.kind r).isTransparent = false) (l : List NodeId) :
    l.any (fun c => t.skipParentheses c == r) = true ↔ ∃ c ∈ l, t.Passes c r := by
  simp only [List.any_eq_true, beq_iff_eq, h.skipParentheses_eq_iff hr]

theorem option_any_skipParentheses_iff (hr : (t.kind r).isTransparent = false)
    (o : Option NodeId) :
    o.any (fun c => t.skipParentheses c == r) = true ↔ ∃ c, o = some c ∧ t.Passes c r := by
  simp only [Option.any_eq_true, beq_iff_eq, h.skipParentheses_eq_iff hr]

theorem parent_mem_selfAndAncestors (hparent : t.parent c = some p) : p ∈ t.selfAndAncestors c := by
  refine mem_selfAndAncestors_of_mem ?_
  rw [h.ancestors_of_parent hparent]
  exact self_mem_selfAndAncestors

theorem mem_selfAndAncestors_of_flows (hflows : t.Flows c r) : c ∈ t.selfAndAncestors r := by
  have hchild : ∀ {n inner : NodeId}, inner ∈ t.children n → n ∈ t.selfAndAncestors inner :=
    fun hmem => h.parent_mem_selfAndAncestors (h.mem_children.mp hmem)
  induction hflows with
  | self => exact self_mem_selfAndAncestors
  | through _ hlast _ ih =>
      exact mem_selfAndAncestors_trans (hchild (List.mem_of_getLast? hlast)) ih
  | branch _ hmem _ _ ih => exact mem_selfAndAncestors_trans (hchild hmem) ih

/-- A value that flows to a node is passed on to it, or is held by a conditional
expression on the way. -/
theorem passes_or_conditional_of_flows (hflows : t.Flows c r) :
    t.Passes c r ∨ ∃ n, c ≤ n ∧ t.kind n = .conditional ∧ t.Holds n r := by
  induction hflows with
  | self n => exact .inl (.self n)
  | @through n inner m hkind hlast _ ih =>
      refine ih.imp (.through hkind hlast) ?_
      rintro ⟨k, hle, hrest⟩
      have hlt := (h.below_of_mem_children (List.mem_of_getLast? hlast)).1
      exact ⟨k, Nat.le_trans (Nat.le_of_lt hlt) hle, hrest⟩
  | @branch n inner m hkind hmem _ _ ih =>
      rcases ih with hpasses | ⟨k, hle, hrest⟩
      · exact .inr ⟨n, Nat.le_refl n, hkind, inner, hmem, hpasses⟩
      · have hlt := (h.below_of_mem_children hmem).1
        exact .inr ⟨k, Nat.le_trans (Nat.le_of_lt hlt) hle, hrest⟩

/-- Nothing stands on the way between a node and its child. -/
theorem child_le_of_lt {m : NodeId} (hparent : t.parent c = some p) (hc : c ∈ t.selfAndAncestors m)
    (hd : d ∈ t.selfAndAncestors m) (hlt : p < d) : c ≤ d := by
  rcases mem_or_mem_of_mem_selfAndAncestors hc hd with hup | hup
  · exact le_of_mem_selfAndAncestors hup
  · rcases List.mem_cons.mp hup with rfl | hup
    · exact Nat.le_refl _
    · rw [h.ancestors_of_parent hparent] at hup
      exact absurd (le_of_mem_selfAndAncestors hup) (Nat.not_le.mpr hlt)

theorem kind_of_flows (hflows : t.Flows c r) (hd : d ∈ t.selfAndAncestors r) (hle : c ≤ d) :
    d = r ∨ (t.kind d).isTransparent = true ∨ t.kind d = .conditional := by
  induction hflows with
  | self n => exact .inl (Nat.le_antisymm (le_of_mem_selfAndAncestors hd) hle)
  | @through n inner m hkind hlast hflows ih =>
      rcases Nat.eq_or_lt_of_le hle with rfl | hlt
      · exact .inr (.inl hkind)
      · have hparent := h.mem_children.mp (List.mem_of_getLast? hlast)
        exact ih hd (h.child_le_of_lt hparent (h.mem_selfAndAncestors_of_flows hflows) hd hlt)
  | @branch n inner m hkind hmem _ hflows ih =>
      rcases Nat.eq_or_lt_of_le hle with rfl | hlt
      · exact .inr (.inr hkind)
      · have hparent := h.mem_children.mp hmem
        exact ih hd (h.child_le_of_lt hparent (h.mem_selfAndAncestors_of_flows hflows) hd hlt)

end Ordered

/-- A variable with at most one child besides its annotations holds just its
initializer. -/
theorem holds_iff_initializer (hd : t.kind d = .localVariable) (hr : t.kind r = .reference)
    (hone : ((t.children d).filter fun c => t.kind c != .annotationUse).length ≤ 1) :
    t.Holds d r ↔ ∃ i, t.initializer d = some i ∧ t.Passes i r := by
  constructor
  · rintro ⟨c, hc, hpasses⟩
    have hkind : (t.kind c != .annotationUse) = true := by
      refine bne_iff_ne.mpr fun hkind => ?_
      have heq := hpasses.eq_of_not_isTransparent (not_isTransparent_of_kind hkind rfl)
      rw [heq, hkind] at hr
      cases hr
    refine ⟨c, ?_, hpasses⟩
    have hmem : c ∈ (t.children d).filter fun c => t.kind c != .annotationUse :=
      List.mem_filter.mpr ⟨hc, hkind⟩
    obtain ⟨i, hi⟩ : ∃ i, (t.children d).filter (fun c => t.kind c != .annotationUse) = [i] :=
      List.length_eq_one_iff.mp (Nat.le_antisymm hone (List.length_pos_of_mem hmem))
    rw [hi, List.mem_singleton] at hmem
    simp only [initializer, hd]
    rw [← List.head?_filter, List.filter_reverse, hi, hmem]
    rfl
  · rintro ⟨i, hi, hpasses⟩
    exact ⟨i, mem_children_of_initializer hi, hpasses⟩

end Tree

end LintEngine
