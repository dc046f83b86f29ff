import LintEngine.Proofs.Tree.PreOrder

/-!
What an action on a builder leaves alone. `Changes` says that it comes back to the node at
which it began, and that this is the only node that it has not left as it was. `Grows` says
that this node has got more children, which are new.

Both compose, and a node made with `within` is changed by what is done below it and by
nothing else. So what a whole lowering does to a builder is put together from its steps.
-/

namespace LintEngine

def Node.adopt (n : Node) (new : List NodeId) : Node := { n with children := n.children ++ new }

theorem Node.adopt_nil (n : Node) : n.adopt [] = n := by
  rw [adopt, List.append_nil]

theorem Node.adopt_append (n : Node) (xs ys : List NodeId) :
    n.adopt (xs ++ ys) = (n.adopt xs).adopt ys := by
  rw [adopt, ← List.append_assoc]
  rfl

namespace Builder

/-! ### The current node -/

/-- Of the nodes that were there, only the current one has changed, and it is current
again. -/
structure Changes (b b' : Builder) (change : Node → Node) : Prop where
  opened : b'.opened = b.opened
  next_le : b.next ≤ b'.next
  nodes : ∀ id < b.next,
    b'.nodes[id]? = if id = b.current then (b.nodes[id]?).map change else b.nodes[id]?

def IsLinking (change : Node → Node) : Prop :=
  ∀ n, (change n).toPayload = n.toPayload ∧ (change n).parent = n.parent

theorem isLinking_adopt (new : List NodeId) : IsLinking (·.adopt new) := fun _ => ⟨rfl, rfl⟩

theorem IsLinking.comp {f g : Node → Node} (hg : IsLinking g) (hf : IsLinking f) :
    IsLinking (g ∘ f) := fun n =>
  ⟨(hg (f n)).1.trans (hf n).1, (hg (f n)).2.trans (hf n).2⟩

namespace Changes

variable {b b' b'' : Builder} {f g : Node → Node}

theorem current (h : Changes b b' f) : b'.current = b.current := by
  rw [Builder.current, h.opened]
  rfl

theorem refl (b : Builder) : Changes b b id where
  opened := rfl
  next_le := Nat.le_refl _
  nodes id _ := by simp

theorem congr (h : Changes b b' f) (heq : ∀ n, f n = g n) : Changes b b' g :=
  funext heq ▸ h

theorem trans (h : Changes b b' f) (h' : Changes b' b'' g) : Changes b b'' (g ∘ f) where
  opened := h'.opened.trans h.opened
  next_le := Nat.le_trans h.next_le h'.next_le
  nodes id hid := by
    rw [h'.nodes id (Nat.lt_of_lt_of_le hid h.next_le), h.nodes id hid, h.current]
    split
    · rw [Option.map_map]
    · rfl

/-- Changes of the current node keep what a node says, and where it stands. -/
theorem exists_node (h : Changes b b' f) (hf : IsLinking f) {id : NodeId} {n : Node}
    (hn : b.nodes[id]? = some n) :
    ∃ n', b'.nodes[id]? = some n' ∧ n'.toPayload = n.toPayload ∧ n'.parent = n.parent := by
  have hid : id < b.next := by
    by_contra hout
    rw [Array.getElem?_eq_none (Nat.le_of_not_lt hout)] at hn
    cases hn
  rw [h.nodes id hid, hn]
  split
  · exact ⟨_, rfl, hf n⟩
  · exact ⟨_, rfl, rfl, rfl⟩

theorem leaf (b : Builder) (p : Payload) : Changes b (b.leaf p) (·.adopt [b.next]) where
  opened := rfl
  next_le := by
    rw [next, next, size_leaf]
    exact Nat.le_succ _
  nodes id hid := by
    have hne : id ≠ b.nodes.size := Nat.ne_of_lt hid
    rw [getElem?_leaf, if_neg hne]
    exact if_congr eq_comm rfl rfl

theorem setImports (b : Builder) (imports : Imports) : Changes b { b with imports } id where
  opened := rfl
  next_le := Nat.le_refl _
  nodes id _ := by simp

end Changes

theorem getElem?_enter_next (b : Builder) (p : Payload) :
    (b.enter p).nodes[b.next]? = some { toPayload := p, parent := some b.current } := by
  change (b.leaf p).nodes[b.next]? = _
  rw [getElem?_leaf]
  exact if_pos rfl

theorem next_lt_enter (b : Builder) (p : Payload) : b.next < (b.enter p).next :=
  Nat.lt_of_lt_of_eq (Nat.lt_succ_self b.next) (size_leaf b p).symm

/-- A node that has been entered is what the actions below it have made of it. -/
theorem Changes.entered {b b' : Builder} {p : Payload} {change : Node → Node}
    (h : Changes (b.enter p) b' change) :
    b'.nodes[b.next]? = some (change { toPayload := p, parent := some b.current }) := by
  refine (h.nodes b.next (next_lt_enter b p)).trans ((if_pos rfl).trans ?_)
  rw [getElem?_enter_next]
  rfl

/-- When a node has been left, its parent has it as the last child. -/
theorem Changes.within {b : Builder} {p : Payload} {f : Builder → Builder} {change : Node → Node}
    (h : Changes (b.enter p) (f (b.enter p)) change) :
    Changes b (b.within p f) (·.adopt [b.next]) where
  opened := congrArg List.tail h.opened
  next_le := Nat.le_trans (Nat.le_of_lt (next_lt_enter b p)) h.next_le
  nodes id hid := by
    have hne : id ≠ (b.enter p).current := Nat.ne_of_lt hid
    refine (h.nodes id (Nat.lt_trans hid (next_lt_enter b p))).trans ?_
    rw [if_neg hne]
    exact (Changes.leaf b p).nodes id hid

theorem Changes.setQualifier (b : Builder) (child : NodeId) :
    Changes b (b.setQualifier b.current child) fun n => { n with qualifier := some child } where
  opened := rfl
  next_le := by
    rw [next, next, Builder.setQualifier, Array.size_modify]
  nodes id _ := by
    rw [Builder.setQualifier, Array.getElem?_modify]
    exact if_congr eq_comm rfl rfl

/-! ### More children -/

/-- The current node has got children that are new, and nothing else has changed. -/
structure Grows (b b' : Builder) (new : List NodeId) : Prop where
  changes : Changes b b' (·.adopt new)
  ge : ∀ c ∈ new, b.next ≤ c
  parent : ∀ c ∈ new, ∃ n, b'.nodes[c]? = some n ∧ n.parent = some b.current
  sorted : new.Pairwise (· < ·)

namespace Grows

variable {b b' b'' : Builder} {xs ys : List NodeId}

theorem lt_next (h : Grows b b' xs) {c : NodeId} (hc : c ∈ xs) : c < b'.next := by
  obtain ⟨n, hn, -⟩ := h.parent c hc
  by_contra hout
  rw [Array.getElem?_eq_none (Nat.le_of_not_lt hout)] at hn
  cases hn

theorem refl (b : Builder) : Grows b b [] where
  changes := (Changes.refl b).congr fun n => n.adopt_nil.symm
  ge := nofun
  parent := nofun
  sorted := .nil

theorem trans (h : Grows b b' xs) (h' : Grows b' b'' ys) : Grows b b'' (xs ++ ys) where
  changes := (h.changes.trans h'.changes).congr fun n => (n.adopt_append xs ys).symm
  ge c hc := by
    rcases List.mem_append.mp hc with hc | hc
    · exact h.ge c hc
    · exact Nat.le_trans h.changes.next_le (h'.ge c hc)
  parent c hc := by
    rcases List.mem_append.mp hc with hc | hc
    · obtain ⟨n, hn, hparent⟩ := h.parent c hc
      obtain ⟨n', hn', -, hparent'⟩ := h'.changes.exists_node (isLinking_adopt ys) hn
      exact ⟨n', hn', hparent'.trans hparent⟩
    · rw [← h.changes.current]
      exact h'.parent c hc
  sorted := List.pairwise_append.mpr ⟨h.sorted, h'.sorted, fun x hx y hy =>
    Nat.lt_of_lt_of_le (h.lt_next hx) (h'.ge y hy)⟩

theorem setImports (b : Builder) (imports : Imports) : Grows b { b with imports } [] :=
  { refl b with changes := (Changes.setImports b imports).congr fun n => n.adopt_nil.symm }

theorem of_node {n : Node} (hchanges : Changes b b' (·.adopt [b.next]))
    (hn : b'.nodes[b.next]? = some n) (hparent : n.parent = some b.current) :
    Grows b b' [b.next] where
  changes := hchanges
  ge c hc := by rw [List.mem_singleton.mp hc]
  parent c hc := by
    rw [List.mem_singleton.mp hc]
    exact ⟨n, hn, hparent⟩
  sorted := List.pairwise_singleton _ _

end Grows

def Grower (f : Builder → Builder) : Prop := ∀ b, ∃ new, Grows b (f b) new

def Adds (f : Builder → Builder) (p : Payload) : Prop :=
  ∀ b, Grows b (f b) [b.next] ∧ ∃ n, (f b).nodes[b.next]? = some n ∧ n.toPayload = p

def Linker (f : Builder → Builder) : Prop :=
  ∀ b, ∃ change, IsLinking change ∧ Changes b (f b) change

theorem Adds.grower {f : Builder → Builder} {p : Payload} (h : Adds f p) : Grower f :=
  fun b => ⟨_, (h b).1⟩

theorem Grower.linker {f : Builder → Builder} (h : Grower f) : Linker f := fun b =>
  let ⟨new, hnew⟩ := h b
  ⟨_, isLinking_adopt new, hnew.changes⟩

theorem Grower.nothing : Grower fun b => b := fun b => ⟨[], .refl b⟩

theorem Grower.comp {f g : Builder → Builder} (hg : Grower g) (hf : Grower f) :
    Grower fun b => g (f b) := fun b =>
  let ⟨_, hxs⟩ := hf b
  let ⟨_, hys⟩ := hg (f b)
  ⟨_, hxs.trans hys⟩

theorem Adds.leaf (p : Payload) : Adds (fun b => b.leaf p) p := fun b =>
  have hn := getElem?_enter_next b p
  ⟨.of_node (.leaf b p) hn rfl, _, hn, rfl⟩

theorem adds_within {b : Builder} {p : Payload} {f : Builder → Builder} {change : Node → Node}
    (hchange : IsLinking change) (h : Changes (b.enter p) (f (b.enter p)) change) :
    Grows b (b.within p f) [b.next] ∧
      ∃ n, (b.within p f).nodes[b.next]? = some n ∧ n.toPayload = p := by
  obtain ⟨hpayload, hparent⟩ := hchange { toPayload := p, parent := some b.current }
  have hn : (b.within p f).nodes[b.next]? = _ := h.entered
  exact ⟨.of_node h.within hn hparent, _, hn, hpayload⟩

theorem Linker.within {f : Builder → Builder} (h : Linker f) (p : Payload) :
    Adds (fun b => b.within p f) p := fun b =>
  let ⟨_, hchange, hchanges⟩ := h (b.enter p)
  adds_within hchange hchanges

end Builder

end LintEngine
