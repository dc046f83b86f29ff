import LintEngine.Proofs.Tree.PreOrder
import Mathlib.Data.Set.Lattice

/-!
The calls and creations that a tree tells of, and what an action on a builder
adds to them.

`Brings f W` says of an action that it adds exactly the invocations in `W` to
those that are there, and that it builds in pre-order. Such actions compose, so
what a whole lowering brings is put together from what its steps bring, without
looking at the builder again.
-/

namespace LintEngine

inductive Invocation where
  | call (start stop : Nat) (name : Option String)
  | creation (start stop : Nat)
deriving DecidableEq, Repr

def Payload.invocation? (p : Payload) : Option Invocation :=
  match p.kind with
  | .call => some (.call p.start p.stop p.name)
  | .new => some (.creation p.start p.stop)
  | _ => none

theorem Payload.invocation?_eq_none {p : Payload} :
    p.invocation? = none ↔ p.kind ≠ .call ∧ p.kind ≠ .new := by
  unfold invocation?
  split <;> simp_all

namespace Tree

/-- The nodes below the root, where a walk begins, include one for an
invocation. -/
def Tells (t : Tree) (w : Invocation) : Prop :=
  ∃ n ∈ t.descendants root, (t.node n).invocation? = some w

/-- A walk through a tree in pre-order comes to every node. -/
theorem Ordered.tells_iff {t : Tree} (h : t.Ordered) {w : Invocation} :
    t.Tells w ↔ w ∈ t.nodes.toList.filterMap (·.invocation?) := by
  rw [Tells, h.descendants_root, List.mem_filterMap]
  constructor
  · rintro ⟨n, hn, hw⟩
    rw [List.mem_range] at hn
    refine ⟨t.node n, ?_, hw⟩
    rw [node, Array.getD_eq_getD_getElem?, Array.getElem?_eq_getElem hn]
    exact Array.getElem_mem_toList hn
  · rintro ⟨x, hx, hw⟩
    obtain ⟨n, hn, rfl⟩ := List.mem_iff_getElem.mp hx
    rw [Array.length_toList] at hn
    refine ⟨n, List.mem_range.mpr hn, ?_⟩
    rw [node, Array.getD_eq_getD_getElem?, Array.getElem?_eq_getElem hn]
    exact hw

end Tree

namespace Builder

variable {b : Builder} {p : Payload} {f g : Builder → Builder} {V W : Set Invocation}

def invocations (b : Builder) : List Invocation := b.nodes.toList.filterMap (·.invocation?)

section

variable {β : Type} {g : Payload → Option β}

theorem filterMap_modify {α : Type} (xs : Array α) (i : Nat) {f : α → α} {g : α → Option β}
    (h : ∀ x, xs[i]? = some x → g (f x) = g x) :
    (xs.modify i f).toList.filterMap g = xs.toList.filterMap g := by
  have hmap : (xs.modify i f).toList.map g = xs.toList.map g := by
    refine List.ext_getElem? fun j => ?_
    rw [List.getElem?_map, List.getElem?_map, Array.getElem?_toList, Array.getElem?_toList,
      Array.getElem?_modify]
    split
    · rename_i hij
      subst hij
      cases hx : xs[i]? <;> simp [h, hx]
    · rfl
  have hid := congrArg (List.filterMap id) hmap
  rwa [List.filterMap_map, List.filterMap_map] at hid

theorem filterMap_leaf (g : Payload → Option β) (b : Builder) (p : Payload) :
    (b.leaf p).nodes.toList.filterMap (fun n => g n.toPayload) =
      b.nodes.toList.filterMap (fun n => g n.toPayload) ++ (g p).toList := by
  rw [leaf, Array.toList_push, List.filterMap_append, filterMap_modify]
  · cases h : g p <;> simp [h]
  · exact fun _ _ => rfl

/-- Finishing a tree fills in positions only. -/
theorem filterMap_build (hg : ∀ p line column, g { p with line, column } = g p) (b : Builder) :
    b.build.nodes.toList.filterMap (fun n => g n.toPayload) =
      b.nodes.toList.filterMap fun n => g n.toPayload := by
  rw [build, Array.toList_map, List.filterMap_map]
  refine List.filterMap_congr fun n _ => ?_
  cases b.source with
  | none => exact hg n.toPayload _ _
  | some source =>
      simp only [Function.comp_apply, Option.map_some, placed]
      split
      · exact hg n.toPayload _ _
      · rfl

end

@[simp] theorem invocations_leaf (b : Builder) (p : Payload) :
    (b.leaf p).invocations = b.invocations ++ p.invocation?.toList :=
  filterMap_leaf Payload.invocation? b p

@[simp] theorem invocations_enter (b : Builder) (p : Payload) :
    (b.enter p).invocations = b.invocations ++ p.invocation?.toList :=
  invocations_leaf b p

@[simp] theorem invocations_leave (b : Builder) : b.leave.invocations = b.invocations := rfl

@[simp] theorem invocations_setQualifier (b : Builder) (id child : NodeId) :
    (b.setQualifier id child).invocations = b.invocations :=
  filterMap_modify b.nodes id fun _ _ => rfl

theorem invocations_build (b : Builder) :
    b.build.nodes.toList.filterMap (·.invocation?) = b.invocations :=
  filterMap_build (fun _ _ _ => rfl) b

/-- What is told by a tree made with a builder. -/
theorem Made.tells_build (h : b.Made) {w : Invocation} : b.build.Tells w ↔ w ∈ b.invocations := by
  rw [h.ordered.tells_iff, invocations_build]

/-! ### Actions -/

/-- An action adds exactly some invocations, and builds in pre-order. -/
structure Brings (f : Builder → Builder) (W : Set Invocation) : Prop where
  made : ∀ {b : Builder}, b.Made → (f b).Made
  mem : ∀ (b : Builder) (w : Invocation), w ∈ (f b).invocations ↔ w ∈ b.invocations ∨ w ∈ W

namespace Brings

theorem of_eq (h : Brings f V) (heq : V = W) : Brings f W := heq ▸ h

theorem nothing : Brings (fun b => b) ∅ := ⟨id, by simp⟩

theorem comp (hg : Brings g W) (hf : Brings f V) : Brings (fun b => g (f b)) (V ∪ W) where
  made h := hg.made (hf.made h)
  mem b w := by rw [hg.mem, hf.mem, Set.mem_union, or_assoc]

theorem leaf (p : Payload) : Brings (fun b => b.leaf p) {w | p.invocation? = some w} where
  made h := h.leaf p
  mem b w := by simp

theorem plainLeaf {p : Payload} (hp : p.invocation? = none) : Brings (fun b => b.leaf p) ∅ :=
  (leaf p).of_eq (by simp [hp])

theorem within (p : Payload) (h : Brings f W) :
    Brings (fun b => b.within p f) ({w | p.invocation? = some w} ∪ W) where
  made hb := (h.made (hb.enter p)).leave
  mem b w := by
    rw [Builder.within, invocations_leave, h.mem, Set.mem_union, ← or_assoc]
    simp

/-- A node that is no invocation adds nothing to what is below it. -/
theorem around {p : Payload} (hp : p.invocation? = none) (h : Brings f W) :
    Brings (fun b => b.within p f) W :=
  (h.within p).of_eq (by simp [hp])

theorem setImports (imports : Builder → Imports) :
    Brings (fun b => { b with imports := imports b }) ∅ where
  made hb := hb.setImports _
  mem _ w := (or_iff_left (Set.notMem_empty w)).symm

/-- An action that is told the index of the next node. -/
theorem atNext {f : NodeId → Builder → Builder} (h : ∀ id, Brings (f id) W) :
    Brings (fun b => f b.next b) W :=
  ⟨fun {b} hb => (h b.next).made hb, fun b w => (h b.next).mem b w⟩

end Brings

end Builder

end LintEngine
