import LintEngine.Tree.Builder
import Mathlib.Data.List.Sort

/-!
Trees whose nodes stand in pre-order, and that every tree made with a builder
is one.

A builder keeps the path from the root to the node that receives children.
The next node is put below the end of that path, and the path never leaves
the chain of ancestors of the node added last. So the parent of a node is the
node just before it or an ancestor of that one. This single condition on the
parents, together with child lists that hold exactly the nodes whose parent
they belong to, is `Tree.Ordered`; that everything below a node fills one
range of indices follows from it.
-/

namespace LintEngine

namespace Tree

variable {t t' : Tree} {n m k c p : Nat}

/-- The nodes of a tree stand in pre-order and their links fit together. -/
structure Ordered (t : Tree) : Prop where
  pos : 0 < t.size
  parent_root : t.parent root = none
  parent_mem : ∀ m, m + 1 < t.size → ∃ p, t.parent (m + 1) = some p ∧ p ∈ t.selfAndAncestors m
  children_eq : ∀ n, t.children n = (List.range t.size).filter fun c => t.parent c == some n

/-- Outside the tree there are only nodes that say nothing. -/
theorem node_of_size_le (h : t.size ≤ n) : t.node n = {} := by
  rw [node, Array.getD_eq_getD_getElem?, Array.getElem?_eq_none h]
  rfl

theorem lt_size_of_kind (h : t.kind n ≠ .other) : n < t.size := by
  by_contra hout
  rw [kind, node_of_size_le (Nat.le_of_not_lt hout)] at h
  exact h rfl

/-! ### Chains of ancestors

A chain is read from the inside out. It strictly decreases, because a link to
a parent is followed only downward, and it is closed: from each of its members
on, it is that member's own chain. -/

theorem ancestors_eq_cons (h : t.parent n = some p) (hp : p < n) :
    t.ancestors n = p :: t.ancestors p := by
  rw [ancestors, h]
  exact if_pos hp

theorem ancestors_eq_nil (h : t.parent n = none) : t.ancestors n = [] := by
  rw [ancestors, h]

theorem lt_of_mem_ancestors (h : k ∈ t.ancestors n) : k < n := by
  induction n using Nat.strongRecOn generalizing k with
  | _ n ih =>
      rw [ancestors] at h
      split at h
      case h_1 p _ =>
        split at h
        · rename_i hp
          rcases List.mem_cons.mp h with rfl | h
          · exact hp
          · exact Nat.lt_trans (ih p hp h) hp
        · simp at h
      case h_2 => simp at h

theorem le_of_mem_selfAndAncestors (h : k ∈ t.selfAndAncestors n) : k ≤ n := by
  rcases List.mem_cons.mp h with rfl | h
  · exact Nat.le_refl _
  · exact Nat.le_of_lt (lt_of_mem_ancestors h)

theorem self_mem_selfAndAncestors : n ∈ t.selfAndAncestors n := List.mem_cons_self ..

theorem mem_selfAndAncestors_of_mem (h : k ∈ t.ancestors n) : k ∈ t.selfAndAncestors n :=
  List.mem_cons_of_mem _ h

/-- Chains look at nothing but the parents up to where they start. -/
theorem ancestors_congr (h : ∀ id ≤ n, t.parent id = t'.parent id) :
    t.ancestors n = t'.ancestors n := by
  induction n using Nat.strongRecOn with
  | _ n ih =>
      rw [ancestors, ancestors, h n (Nat.le_refl n)]
      cases t'.parent n with
      | none => rfl
      | some p =>
          simp only
          split
          · rename_i hp
            rw [ih p hp fun id hid => h id (Nat.le_trans hid (Nat.le_of_lt hp))]
          · rfl

/-- From each of its members on, a chain is that member's own chain. -/
theorem selfAndAncestors_eq_of_suffix {l : List NodeId} (h : (k :: l) <:+ t.selfAndAncestors n) :
    t.selfAndAncestors k = k :: l := by
  induction n using Nat.strongRecOn with
  | _ n ih =>
      rw [selfAndAncestors] at h
      rcases List.suffix_cons_iff.mp h with h | h
      · obtain ⟨rfl, rfl⟩ := List.cons.inj h
        rfl
      · rw [ancestors] at h
        split at h
        case h_1 p _ =>
          split at h
          · rename_i hp
            exact ih p hp h
          · simp at h
        case h_2 => simp at h

theorem selfAndAncestors_suffix (h : k ∈ t.selfAndAncestors n) :
    t.selfAndAncestors k <:+ t.selfAndAncestors n := by
  obtain ⟨s, l, hl⟩ := List.append_of_mem h
  have hsuffix : (k :: l) <:+ t.selfAndAncestors n := ⟨s, hl.symm⟩
  rw [selfAndAncestors_eq_of_suffix hsuffix]
  exact hsuffix

theorem mem_selfAndAncestors_trans (h₁ : k ∈ t.selfAndAncestors n)
    (h₂ : n ∈ t.selfAndAncestors m) : k ∈ t.selfAndAncestors m :=
  (selfAndAncestors_suffix h₂).subset h₁

/-- Of two members of a chain, one is above the other. -/
theorem mem_or_mem_of_mem_selfAndAncestors (h₁ : k ∈ t.selfAndAncestors m)
    (h₂ : n ∈ t.selfAndAncestors m) : k ∈ t.selfAndAncestors n ∨ n ∈ t.selfAndAncestors k := by
  rcases List.suffix_or_suffix_of_suffix (selfAndAncestors_suffix h₁) (selfAndAncestors_suffix h₂)
    with h | h
  · exact .inl (h.subset self_mem_selfAndAncestors)
  · exact .inr (h.subset self_mem_selfAndAncestors)

/-! ### What is below a node -/

namespace Ordered

variable (h : t.Ordered)

include h

theorem parent_lt (hp : t.parent n = some p) : p < n ∧ n < t.size := by
  have hn : n < t.size := by
    by_contra hn
    rw [parent, node_of_size_le (Nat.le_of_not_lt hn)] at hp
    cases hp
  refine ⟨?_, hn⟩
  cases n with
  | zero => rw [show t.parent 0 = none from h.parent_root] at hp; cases hp
  | succ m =>
      obtain ⟨q, hq, hmem⟩ := h.parent_mem m hn
      rw [hp] at hq
      cases hq
      exact Nat.lt_succ_of_le (le_of_mem_selfAndAncestors hmem)

theorem mem_children : c ∈ t.children n ↔ t.parent c = some n := by
  rw [h.children_eq, List.mem_filter, List.mem_range, beq_iff_eq]
  exact ⟨And.right, fun hp => ⟨(h.parent_lt hp).2, hp⟩⟩

theorem below_of_mem_children (hc : c ∈ t.children n) : t.Below n c :=
  h.parent_lt (h.mem_children.mp hc)

theorem children_sorted : (t.children n).Pairwise (· < ·) := by
  rw [h.children_eq]
  exact List.pairwise_lt_range.filter _

theorem ancestors_of_parent (hp : t.parent n = some p) : t.ancestors n = t.selfAndAncestors p :=
  ancestors_eq_cons hp (h.parent_lt hp).1

/-- The way down from an ancestor begins with one of its children. -/
theorem exists_child_of_mem_ancestors (hk : k ∈ t.ancestors m) :
    ∃ c, t.parent c = some k ∧ c ∈ t.selfAndAncestors m := by
  induction m using Nat.strongRecOn with
  | _ m ih =>
      cases hp : t.parent m with
      | none => rw [ancestors_eq_nil hp] at hk; cases hk
      | some p =>
          rw [h.ancestors_of_parent hp] at hk
          rcases List.mem_cons.mp hk with rfl | hk
          · exact ⟨m, hp, self_mem_selfAndAncestors⟩
          · obtain ⟨c, hc, hmem⟩ := ih p (h.parent_lt hp).1 hk
            refine ⟨c, hc, mem_selfAndAncestors_of_mem ?_⟩
            rw [h.ancestors_of_parent hp]
            exact hmem

theorem root_mem_selfAndAncestors (hm : m < t.size) : root ∈ t.selfAndAncestors m := by
  induction m using Nat.strongRecOn with
  | _ m ih =>
      cases m with
      | zero => exact self_mem_selfAndAncestors
      | succ m =>
          obtain ⟨p, hp, -⟩ := h.parent_mem m hm
          have hlt := (h.parent_lt hp).1
          apply mem_selfAndAncestors_of_mem
          rw [h.ancestors_of_parent hp]
          exact ih p hlt (Nat.lt_trans hlt hm)

/-- What is below a node stands without gaps behind it. -/
theorem mem_selfAndAncestors_of_le (hk : k ∈ t.selfAndAncestors m) (hm : m < t.size)
    (h₁ : k ≤ n) (h₂ : n ≤ m) : k ∈ t.selfAndAncestors n := by
  induction m with
  | zero =>
      obtain rfl : n = 0 := Nat.le_zero.mp h₂
      exact hk
  | succ m ih =>
      rcases Nat.eq_or_lt_of_le h₂ with rfl | hlt
      · exact hk
      · obtain ⟨p, hp, hmem⟩ := h.parent_mem m hm
        have hne : k ≠ m + 1 := by omega
        have hk' : k ∈ t.ancestors (m + 1) := (List.mem_cons.mp hk).resolve_left hne
        rw [h.ancestors_of_parent hp] at hk'
        exact ih (mem_selfAndAncestors_trans hk' hmem) (by omega) (by omega)

theorem child_eq_of_mem {c₁ c₂ y : Nat} (h₁ : t.parent c₁ = some n) (h₂ : t.parent c₂ = some n)
    (hy₁ : c₁ ∈ t.selfAndAncestors y) (hy₂ : c₂ ∈ t.selfAndAncestors y) : c₁ = c₂ := by
  have key : ∀ {a b : Nat}, t.parent a = some n → t.parent b = some n →
      a ∈ t.selfAndAncestors b → a = b := by
    intro a b ha hb hab
    by_contra hne
    have hmem : a ∈ t.ancestors b := (List.mem_cons.mp hab).resolve_left hne
    rw [h.ancestors_of_parent hb] at hmem
    exact absurd (h.parent_lt ha).1 (Nat.not_lt.mpr (le_of_mem_selfAndAncestors hmem))
  rcases mem_or_mem_of_mem_selfAndAncestors hy₁ hy₂ with hup | hup
  · exact key h₁ h₂ hup
  · exact (key h₂ h₁ hup).symm

theorem lt_of_children_lt {c₁ c₂ x y : Nat} (h₁ : t.parent c₁ = some n)
    (h₂ : t.parent c₂ = some n) (hlt : c₁ < c₂) (hx : c₁ ∈ t.selfAndAncestors x)
    (hxs : x < t.size) (hy : c₂ ∈ t.selfAndAncestors y) : x < y := by
  by_contra hle
  have hyx : y ≤ x := Nat.le_of_not_lt hle
  have hc₂ : c₂ ≤ y := le_of_mem_selfAndAncestors hy
  have hc₁ : c₁ ∈ t.selfAndAncestors y := h.mem_selfAndAncestors_of_le hx hxs (by omega) hyx
  have heq := h.child_eq_of_mem h₁ h₂ hc₁ hy
  omega

/-- A recursion over the children of a node that stays inside the tree. -/
theorem flatMap_children {α : Type} (f : NodeId → List α) :
    ((t.children n).flatMap fun c => if _ : t.Below n c then f c else []) =
      (t.children n).flatMap f := by
  refine List.flatMap_congr fun c hc => ?_
  rw [dif_pos (h.below_of_mem_children hc)]

theorem descendants_eq : t.descendants n = n :: (t.children n).flatMap t.descendants := by
  rw [descendants, h.flatMap_children]

theorem self_mem_descendants : n ∈ t.descendants n := by
  rw [h.descendants_eq]
  exact List.mem_cons_self

theorem mem_descendants_of_child (hc : c ∈ t.children n) (hm : m ∈ t.descendants c) :
    m ∈ t.descendants n := by
  rw [h.descendants_eq]
  exact List.mem_cons_of_mem _ (List.mem_flatMap.mpr ⟨c, hc, hm⟩)

theorem mem_descendants (hn : n < t.size) :
    m ∈ t.descendants n ↔ m < t.size ∧ n ∈ t.selfAndAncestors m := by
  induction hs : t.size - n using Nat.strongRecOn generalizing n with
  | _ s ih =>
      have hchild : ∀ c, t.parent c = some n →
          (m ∈ t.descendants c ↔ m < t.size ∧ c ∈ t.selfAndAncestors m) := by
        intro c hc
        obtain ⟨hlt, hcs⟩ := h.parent_lt hc
        exact ih _ (by omega) hcs rfl
      rw [h.descendants_eq, List.mem_cons, List.mem_flatMap]
      constructor
      · rintro (rfl | ⟨c, hc, hmem⟩)
        · exact ⟨hn, self_mem_selfAndAncestors⟩
        · have hp := h.mem_children.mp hc
          obtain ⟨hms, hcm⟩ := (hchild c hp).mp hmem
          refine ⟨hms, mem_selfAndAncestors_trans (mem_selfAndAncestors_of_mem ?_) hcm⟩
          rw [h.ancestors_of_parent hp]
          exact self_mem_selfAndAncestors
      · rintro ⟨hms, hnm⟩
        rcases List.mem_cons.mp hnm with rfl | hnm
        · exact .inl rfl
        · obtain ⟨c, hc, hcm⟩ := h.exists_child_of_mem_ancestors hnm
          exact .inr ⟨c, h.mem_children.mpr hc, (hchild c hc).mpr ⟨hms, hcm⟩⟩

theorem mem_selfAndAncestors_of_mem_descendants (hm : m ∈ t.descendants n) :
    n ∈ t.selfAndAncestors m := by
  by_cases hn : n < t.size
  · exact ((h.mem_descendants hn).mp hm).2
  · rw [h.descendants_eq, List.mem_cons] at hm
    rcases hm with rfl | hm
    · exact self_mem_selfAndAncestors
    · obtain ⟨c, hc, -⟩ := List.mem_flatMap.mp hm
      have hbelow := h.below_of_mem_children hc
      exact (hn (Nat.lt_trans hbelow.1 hbelow.2)).elim

theorem descendants_sorted (hn : n < t.size) : (t.descendants n).Pairwise (· < ·) := by
  induction hs : t.size - n using Nat.strongRecOn generalizing n with
  | _ s ih =>
      rw [h.descendants_eq, List.pairwise_cons, List.pairwise_flatMap]
      refine ⟨?_, ?_, ?_⟩
      · intro m hm
        obtain ⟨c, hc, hmem⟩ := List.mem_flatMap.mp hm
        obtain ⟨hlt, hcs⟩ := h.parent_lt (h.mem_children.mp hc)
        have hle := le_of_mem_selfAndAncestors ((h.mem_descendants hcs).mp hmem).2
        exact Nat.lt_of_lt_of_le hlt hle
      · intro c hc
        obtain ⟨hlt, hcs⟩ := h.parent_lt (h.mem_children.mp hc)
        exact ih _ (by omega) hcs rfl
      · refine h.children_sorted.imp_of_mem fun {c₁ c₂} hc₁ hc₂ hlt x hx y hy => ?_
        have hx' := (h.mem_descendants (h.below_of_mem_children hc₁).2).mp hx
        have hy' := (h.mem_descendants (h.below_of_mem_children hc₂).2).mp hy
        exact h.lt_of_children_lt (h.mem_children.mp hc₁) (h.mem_children.mp hc₂) hlt hx'.2 hx'.1
          hy'.2

/-- Pre-order is the order of the indices. -/
theorem descendants_root : t.descendants root = List.range t.size := by
  refine (h.descendants_sorted h.pos).eq_of_mem_iff List.pairwise_lt_range fun m => ?_
  rw [h.mem_descendants h.pos, List.mem_range]
  exact ⟨And.left, fun hm => ⟨hm, h.root_mem_selfAndAncestors hm⟩⟩

end Ordered

end Tree

/-! ### Builders -/

namespace Builder

/-- The builders that come about by starting a tree, adding nodes, returning to
a parent, marking a qualifier, and changing imports or what a node says. -/
inductive Made : Builder → Prop
  | start (file : Path) (phase : Phase) (scope : Scope) (source : Option String)
      (imports : Imports) : Made (start file phase scope source imports)
  | leaf {b : Builder} (h : Made b) (p : Payload) : Made (b.leaf p)
  | enter {b : Builder} (h : Made b) (p : Payload) : Made (b.enter p)
  | leave {b : Builder} (h : Made b) : Made b.leave
  | setQualifier {b : Builder} (h : Made b) (id child : NodeId) : Made (b.setQualifier id child)
  | setImports {b : Builder} (h : Made b) (imports : Imports) : Made { b with imports }
  | setPayload {b : Builder} (h : Made b) (id : NodeId) (f : Payload → Payload) :
      Made { b with nodes := b.nodes.modify id fun n => { n with toPayload := f n.toPayload } }

variable {b : Builder}

@[simp] theorem placed_parent (index : Option LineIndex) (n : Node) :
    (placed index n).parent = n.parent := by
  cases index with
  | none => rfl
  | some index =>
      simp only [placed]
      split <;> rfl

@[simp] theorem placed_children (index : Option LineIndex) (n : Node) :
    (placed index n).children = n.children := by
  cases index with
  | none => rfl
  | some index =>
      simp only [placed]
      split <;> rfl

@[simp] theorem size_build (b : Builder) : b.build.size = b.nodes.size := by
  simp [build, Tree.size]

theorem parent_build (b : Builder) (id : NodeId) :
    b.build.parent id = (b.nodes[id]?).bind (·.parent) := by
  rw [Tree.parent, Tree.node, Array.getD_eq_getD_getElem?]
  simp only [build, Array.getElem?_map]
  cases b.nodes[id]? <;> simp

theorem children_build (b : Builder) (id : NodeId) :
    b.build.children id = ((b.nodes[id]?).map (·.children)).getD [] := by
  rw [Tree.children, Tree.node, Array.getD_eq_getD_getElem?]
  simp only [build, Array.getElem?_map]
  cases b.nodes[id]? <;> simp

/-- A tree in pre-order whose open nodes are the last part of the chain of the
node added last. -/
structure Sound (b : Builder) : Prop where
  ordered : b.build.Ordered
  spine : (b.opened ++ [Tree.root]) <:+ b.build.selfAndAncestors (b.nodes.size - 1)

namespace Sound

/-- The open nodes are the current one and its ancestors. -/
theorem selfAndAncestors_current (h : b.Sound) :
    b.build.selfAndAncestors b.current = b.opened ++ [Tree.root] := by
  have hspine := h.spine
  rw [current]
  cases ho : b.opened with
  | nil =>
      rw [ho] at hspine
      exact Tree.selfAndAncestors_eq_of_suffix hspine
  | cons k l =>
      rw [ho] at hspine
      exact Tree.selfAndAncestors_eq_of_suffix hspine

theorem current_mem (h : b.Sound) :
    b.current ∈ b.build.selfAndAncestors (b.nodes.size - 1) := by
  apply h.spine.subset
  rw [← h.selfAndAncestors_current]
  exact Tree.self_mem_selfAndAncestors

theorem current_lt (h : b.Sound) : b.current < b.nodes.size := by
  have hle := Tree.le_of_mem_selfAndAncestors h.current_mem
  have hpos := h.ordered.pos
  rw [size_build] at hpos
  exact Nat.lt_of_le_of_lt hle (Nat.sub_lt hpos Nat.one_pos)

theorem of_links {b' : Builder} (h : b.Sound) (hsize : b'.nodes.size = b.nodes.size)
    (hparent : ∀ id, b'.build.parent id = b.build.parent id)
    (hchildren : ∀ id, b'.build.children id = b.build.children id)
    (hopened : b'.opened = b.opened) : b'.Sound := by
  have hchain : ∀ id, b'.build.selfAndAncestors id = b.build.selfAndAncestors id := fun id => by
    rw [Tree.selfAndAncestors, Tree.ancestors_congr fun id _ => hparent id]
    rfl
  have hs : b'.build.size = b.build.size := by rw [size_build, size_build, hsize]
  refine ⟨⟨?_, ?_, ?_, ?_⟩, ?_⟩
  · rw [hs]
    exact h.ordered.pos
  · rw [hparent]
    exact h.ordered.parent_root
  · intro m hm
    rw [hs] at hm
    rw [hparent, hchain]
    exact h.ordered.parent_mem m hm
  · intro n
    simp only [hchildren, hparent, hs]
    exact h.ordered.children_eq n
  · rw [hopened, hsize, hchain]
    exact h.spine

theorem start (file : Path) (phase : Phase) (scope : Scope) (source : Option String)
    (imports : Imports) : (Builder.start file phase scope source imports).Sound := by
  have hparent : ∀ id, (Builder.start file phase scope source imports).build.parent id = none := by
    intro id
    rw [parent_build]
    cases id <;> rfl
  refine ⟨⟨?_, hparent _, ?_, ?_⟩, ?_⟩
  · rw [size_build]
    exact Nat.one_pos
  · intro m hm
    rw [size_build] at hm
    exact absurd (Nat.lt_of_succ_lt_succ hm) (Nat.not_lt_zero m)
  · intro n
    rw [children_build]
    simp only [hparent]
    cases n <;> simp [Builder.start]
  · rw [Tree.selfAndAncestors, Tree.ancestors_eq_nil (hparent _)]
    exact List.suffix_refl _

end Sound

/-! Adding a node gives its parent one more child and changes no other link. -/

theorem getElem?_leaf (b : Builder) (p : Payload) (id : Nat) :
    (b.leaf p).nodes[id]? =
      if id = b.nodes.size then some { toPayload := p, parent := some b.current }
      else if b.current = id then
        (b.nodes[id]?).map fun n => { n with children := n.children ++ [b.nodes.size] }
      else b.nodes[id]? := by
  rw [leaf, Array.getElem?_push, Array.size_modify, Array.getElem?_modify]
  rfl

@[simp] theorem size_leaf (b : Builder) (p : Payload) :
    (b.leaf p).nodes.size = b.nodes.size + 1 := by
  simp [leaf]

theorem parent_leaf (b : Builder) (p : Payload) (id : Nat) :
    (b.leaf p).build.parent id =
      if id = b.nodes.size then some b.current else b.build.parent id := by
  rw [parent_build, parent_build, getElem?_leaf]
  split
  · rfl
  · split
    · cases b.nodes[id]? <;> rfl
    · rfl

theorem children_leaf (b : Builder) (p : Payload) (h : b.current < b.nodes.size) (id : Nat) :
    (b.leaf p).build.children id =
      if b.current = id then b.build.children id ++ [b.nodes.size] else b.build.children id := by
  rw [children_build, children_build, getElem?_leaf]
  split
  · rename_i hid
    rw [if_neg (by rw [hid]; exact Nat.ne_of_lt h), hid, Array.getElem?_eq_none (Nat.le_refl _)]
    rfl
  · split
    · rename_i hc
      rw [← hc, Array.getElem?_eq_getElem h]
      rfl
    · rfl

theorem selfAndAncestors_leaf (b : Builder) (p : Payload) {id : Nat} (h : id < b.nodes.size) :
    (b.leaf p).build.selfAndAncestors id = b.build.selfAndAncestors id := by
  rw [Tree.selfAndAncestors, Tree.ancestors_congr fun k hk => ?_]
  · rfl
  · rw [parent_leaf, if_neg (Nat.ne_of_lt (Nat.lt_of_le_of_lt hk h))]

namespace Sound

/-- The chain of a node just added is the path of open nodes. -/
theorem selfAndAncestors_next (h : b.Sound) (p : Payload) :
    (b.leaf p).build.selfAndAncestors b.nodes.size = b.nodes.size :: (b.opened ++ [Tree.root]) := by
  have hlink : (b.leaf p).build.parent b.nodes.size = some b.current := by
    rw [parent_leaf, if_pos rfl]
  rw [Tree.selfAndAncestors, Tree.ancestors_eq_cons hlink h.current_lt]
  change b.nodes.size :: (b.leaf p).build.selfAndAncestors b.current = _
  rw [selfAndAncestors_leaf b p h.current_lt, h.selfAndAncestors_current]

theorem ordered_leaf (h : b.Sound) (p : Payload) : (b.leaf p).build.Ordered := by
  have hpos : 0 < b.nodes.size := by
    rw [← size_build]
    exact h.ordered.pos
  refine ⟨?_, ?_, ?_, ?_⟩
  · rw [size_build, size_leaf]
    exact Nat.succ_pos _
  · have hne : Tree.root ≠ b.nodes.size := Nat.ne_of_lt hpos
    rw [parent_leaf, if_neg hne]
    exact h.ordered.parent_root
  · intro m hm
    rw [size_build, size_leaf] at hm
    rw [parent_leaf]
    split
    · -- the new node hangs below the end of the path of open nodes
      rename_i hnew
      refine ⟨b.current, rfl, ?_⟩
      have hm' : m = b.nodes.size - 1 := by omega
      rw [selfAndAncestors_leaf b p (by omega), hm']
      exact h.current_mem
    · have hm' : m + 1 < b.nodes.size := by omega
      rw [selfAndAncestors_leaf b p (by omega)]
      exact h.ordered.parent_mem m (by rw [size_build]; exact hm')
  · intro n
    have hold : ((List.range b.nodes.size).filter fun c => (b.leaf p).build.parent c == some n) =
        b.build.children n := by
      rw [h.ordered.children_eq, size_build]
      refine List.filter_congr fun c hc => ?_
      rw [parent_leaf, if_neg (Nat.ne_of_lt (List.mem_range.mp hc))]
    rw [children_leaf b p h.current_lt, size_build, size_leaf, List.range_succ, List.filter_append,
      hold]
    by_cases hn : b.current = n <;> simp [parent_leaf, hn]

theorem leaf (h : b.Sound) (p : Payload) : (b.leaf p).Sound := by
  refine ⟨h.ordered_leaf p, ?_⟩
  rw [size_leaf, Nat.add_sub_cancel, h.selfAndAncestors_next]
  exact List.suffix_cons _ _

theorem enter (h : b.Sound) (p : Payload) : (b.enter p).Sound := by
  have hlast : (b.leaf p).build.selfAndAncestors ((b.leaf p).nodes.size - 1) =
      b.nodes.size :: (b.opened ++ [Tree.root]) := by
    rw [size_leaf, Nat.add_sub_cancel, h.selfAndAncestors_next]
  exact ⟨h.ordered_leaf p, [], hlast.symm⟩

theorem leave (h : b.Sound) : b.leave.Sound := by
  refine ⟨h.ordered, List.IsSuffix.trans ?_ h.spine⟩
  obtain ⟨front, hfront⟩ := List.tail_suffix b.opened
  exact ⟨front, by rw [← List.append_assoc]; exact congrArg (· ++ [Tree.root]) hfront⟩

/-- What is kept by changing one node but for its links. -/
theorem modify (h : b.Sound) (id : NodeId) (f : Node → Node)
    (hparent : ∀ n, (f n).parent = n.parent) (hchildren : ∀ n, (f n).children = n.children) :
    Sound { b with nodes := b.nodes.modify id f } := by
  refine h.of_links (Array.size_modify ..) ?_ ?_ rfl
  · intro k
    rw [parent_build, parent_build, Array.getElem?_modify]
    split
    · cases b.nodes[k]? <;> simp [hparent]
    · rfl
  · intro k
    rw [children_build, children_build, Array.getElem?_modify]
    split
    · cases b.nodes[k]? <;> simp [hchildren]
    · rfl

end Sound

theorem Made.sound (h : b.Made) : b.Sound := by
  induction h with
  | start => exact Sound.start ..
  | leaf _ p ih => exact ih.leaf p
  | enter _ p ih => exact ih.enter p
  | leave _ ih => exact ih.leave
  | setQualifier _ id child ih => exact ih.modify id _ (fun _ => rfl) fun _ => rfl
  | setImports _ imports ih => exact ih.of_links rfl (fun _ => rfl) (fun _ => rfl) rfl
  | setPayload _ id f ih => exact ih.modify id _ (fun _ => rfl) fun _ => rfl

theorem Made.ordered (h : b.Made) : b.build.Ordered := h.sound.ordered

end Builder

end LintEngine
