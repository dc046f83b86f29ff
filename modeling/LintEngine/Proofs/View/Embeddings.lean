import LintEngine.Proofs.Symbols.Outward
import LintEngine.Proofs.Tree.Finishing
import LintEngine.Proofs.Tree.Parentheses
import LintEngine.View.Resolve

/-!
Resolution in a part of a tree that is found again in another tree.

An embedding puts the nodes of a part of one tree, and the nodes around it, to nodes
of another tree that say the same. It follows that names, types and calls in the part
mean the same in both. The four functions of resolution have a bound on the length of
their search, and the two trees may be of different size; so the induction is on the
order in which nodes are finished, and says of each node how much of the bound is
enough for it in either tree.
-/

namespace LintEngine

namespace Tree

def said (t : Tree) (n : NodeId) : Payload :=
  { (t.node n).toPayload with start := 0, stop := 0, line := 0, column := 0 }

/-- Arguments are counted alike where children and receiver correspond. -/
theorem length_arguments_map {t t' : Tree} {n m : NodeId} {g : NodeId → NodeId}
    (hchildren : t'.children m = (t.children n).map g)
    (hqualifier : t'.qualifier m = (t.qualifier n).map g)
    (hmem : ∀ q, t.qualifier n = some q → q ∈ t.children n)
    (hinjective : ∀ c ∈ t.children n, ∀ d ∈ t.children n, g c = g d → c = d)
    (hkind : ∀ c ∈ t.children n, (t'.kind (g c) != .classDecl) = (t.kind c != .classDecl)) :
    (t'.arguments m).length = (t.arguments n).length := by
  rw [arguments, arguments, hchildren, List.filter_map, List.length_map]
  refine congrArg List.length (List.filter_congr fun c hc => ?_)
  rw [Function.comp_apply, hqualifier, hkind c hc]
  congr 1
  cases hq : t.qualifier n with
  | none => rfl
  | some q =>
      rw [Bool.eq_iff_iff, bne_iff_ne, bne_iff_ne, Option.map_some, ne_eq, ne_eq, Option.some_inj,
        Option.some_inj]
      exact not_congr ⟨hinjective c hc q (hmem q hq), congrArg g⟩

/-- A part of one tree is found again in another one, and so is what is around it and
what its names refer to. -/
structure Embedding (t t' : Tree) where
  place : NodeId → NodeId
  /-- The nodes of the part. -/
  Part : NodeId → Prop
  /-- The nodes of the part and those around it. -/
  Around : NodeId → Prop
  imports : t'.imports = t.imports
  size_le : t.size ≤ t'.size
  lt_size : ∀ {n}, Part n → n < t.size
  injective : ∀ {n m}, Part n → Part m → place n = place m → n = m
  around : ∀ {n}, Part n → Around n
  said : ∀ {n}, Around n → t'.said (place n) = t.said n
  ancestors : ∀ {n}, Around n → t'.ancestors (place n) = (t.ancestors n).map place
  around_ancestors : ∀ {n a}, Around n → a ∈ t.ancestors n → Around a
  children : ∀ {n}, Part n → t'.children (place n) = (t.children n).map place
  part_children : ∀ {n c}, Part n → c ∈ t.children n → Part c
  qualifier : ∀ {n}, Part n → t'.qualifier (place n) = (t.qualifier n).map place
  qualifier_mem : ∀ {n q}, Part n → t.qualifier n = some q → q ∈ t.children n
  resolveLocal : ∀ {n y}, Part n → t.name n = some y →
    t'.resolveLocal y (place n) = (t.resolveLocal y n).map place
  around_resolved : ∀ {n y d}, Part n → t.resolveLocal y n = some d → Around d
  part_resolved : ∀ {n y d}, Part n → t.resolveLocal y n = some d →
    t.kind d = .localVariable → Part d

namespace Embedding

variable {t t' : Tree} (f : Embedding t t') {n m c q : NodeId} {y : String}

/-! ### What nodes say -/

theorem kind (h : f.Around n) : t'.kind (f.place n) = t.kind n := by
  show (t'.said _).kind = (t.said n).kind
  rw [f.said h]

theorem name (h : f.Around n) : t'.name (f.place n) = t.name n := by
  show (t'.said _).name = (t.said n).name
  rw [f.said h]

theorem typeName (h : f.Around n) : t'.typeName (f.place n) = t.typeName n := by
  show (t'.said _).typeName = (t.said n).typeName
  rw [f.said h]

theorem literal (h : f.Around n) : (t'.node (f.place n)).literal = (t.node n).literal := by
  show (t'.said _).literal = (t.said n).literal
  rw [f.said h]

theorem operator (h : f.Around n) : (t'.node (f.place n)).operator = (t.node n).operator := by
  show (t'.said _).operator = (t.said n).operator
  rw [f.said h]

/-! ### Parts of a node -/

theorem find?_map {l : List NodeId} {p p' : NodeId → Bool} (h : ∀ c ∈ l, p' (f.place c) = p c) :
    (l.map f.place).find? p' = (l.find? p).map f.place := by
  induction l with
  | nil => rfl
  | cons c l ih =>
      have ih := ih fun c hc => h c (List.mem_cons_of_mem _ hc)
      simp only [List.map_cons, List.find?_cons, h c List.mem_cons_self, ih]
      cases p c <;> rfl

theorem length_filter_map {l : List NodeId} {p p' : NodeId → Bool}
    (h : ∀ c ∈ l, p' (f.place c) = p c) :
    ((l.map f.place).filter p').length = (l.filter p).length := by
  rw [List.filter_map, List.length_map]
  exact congrArg List.length (List.filter_congr h)

theorem initializer (h : f.Part n) :
    t'.initializer (f.place n) = (t.initializer n).map f.place := by
  have hfind : (t'.children (f.place n)).reverse.find? (fun c => t'.kind c != .annotationUse) =
      ((t.children n).reverse.find? fun c => t.kind c != .annotationUse).map f.place := by
    rw [f.children h, ← List.map_reverse]
    refine f.find?_map fun c hc => ?_
    rw [f.kind (f.around (f.part_children h (List.mem_reverse.mp hc)))]
  simp only [Tree.initializer, f.kind (f.around h), hfind]
  split <;> rfl

theorem length_arguments (h : f.Part n) :
    (t'.arguments (f.place n)).length = (t.arguments n).length := by
  refine length_arguments_map (f.children h) (f.qualifier h) (fun q => f.qualifier_mem h)
    (fun c hc d hd => f.injective (f.part_children h hc) (f.part_children h hd)) fun c hc => ?_
  rw [f.kind (f.around (f.part_children h hc))]

theorem length_parameters (h : f.Part n) :
    (t'.parameters (f.place n)).length = (t.parameters n).length := by
  rw [Tree.parameters, Tree.parameters, childrenOfKind, childrenOfKind, f.children h]
  refine f.length_filter_map fun c hc => ?_
  rw [f.kind (f.around (f.part_children h hc))]

/-! ### Classes -/

theorem qualifiedClassName (h : f.Around n) :
    t'.qualifiedClassName (f.place n) = t.qualifiedClassName n := by
  have hnames : ∀ l : List NodeId, (∀ a ∈ l, f.Around a) →
      ((l.map f.place).filter fun a => t'.kind a == .classDecl).mapM t'.name =
        (l.filter fun a => t.kind a == .classDecl).mapM t.name := by
    intro l hl
    induction l with
    | nil => rfl
    | cons a l ih =>
        have ha := hl a List.mem_cons_self
        have ih := ih fun a ha => hl a (List.mem_cons_of_mem _ ha)
        simp only [List.map_cons, List.filter_cons, f.kind ha]
        split
        · rw [List.mapM_cons, List.mapM_cons, ih, f.name ha]
        · exact ih
  have hclasses : t'.classNames (f.place n) = t.classNames n := by
    rw [classNames, classNames, f.name h, f.ancestors h,
      hnames _ fun a ha => f.around_ancestors h ha]
  rw [Tree.qualifiedClassName, Tree.qualifiedClassName, hclasses, f.imports]

theorem enclosingClass (h : f.Around n) :
    t'.enclosingClass (f.place n) = (t.enclosingClass n).map f.place := by
  rw [Tree.enclosingClass, Tree.enclosingClass, enclosing, enclosing, f.ancestors h]
  exact f.find?_map fun a ha => by rw [f.kind (f.around_ancestors h ha)]

/-! ### Ways down -/

section

variable (hordered : t.Ordered) (hordered' : t'.Ordered)

include hordered

theorem finishes_trans (hn : f.Part n) (hm : f.Part m) (hc : f.Part c) (h₁ : t.Finishes n m)
    (h₂ : t.Finishes m c) : t.Finishes n c :=
  hordered.finishes_trans (f.lt_size hn) (f.lt_size hm) (f.lt_size hc) h₁ h₂

/-- A value that is passed on within the part is finished before. -/
theorem part_of_passes (hpasses : t.Passes n m) (h : f.Part n) :
    f.Part m ∧ (m = n ∨ t.Finishes m n) := by
  induction hpasses with
  | self => exact ⟨h, .inl rfl⟩
  | @through n inner m _ hlast _ ih =>
      have hmem := List.mem_of_getLast? hlast
      have hinner := f.part_children h hmem
      have hfinishes := hordered.finishes_of_mem_children hmem
      obtain ⟨hm, rfl | hbefore⟩ := ih hinner
      · exact ⟨hm, .inr hfinishes⟩
      · exact ⟨hm, .inr (f.finishes_trans hordered hm hinner h hbefore hfinishes)⟩

include hordered'

theorem skipParentheses (h : f.Part n) :
    t'.skipParentheses (f.place n) = f.place (t.skipParentheses n) := by
  induction hs : t.size - n using Nat.strongRecOn generalizing n with
  | _ s ih =>
      have hkind := f.kind (f.around h)
      cases htransparent : (t.kind n).isTransparent with
      | false =>
          rw [Tree.skipParentheses, hkind, if_neg (by simp [htransparent]), Tree.skipParentheses,
            if_neg (by simp [htransparent])]
      | true =>
          have hlast' : (t'.children (f.place n)).getLast? =
              (t.children n).getLast?.map f.place := by
            rw [f.children h, List.getLast?_map]
          cases hlast : (t.children n).getLast? with
          | none =>
              rw [hlast] at hlast'
              rw [Tree.skipParentheses, hkind, if_pos htransparent, hlast', Tree.skipParentheses,
                if_pos htransparent, hlast]
              rfl
          | some inner =>
              rw [hlast] at hlast'
              have hmem := List.mem_of_getLast? hlast
              rw [hordered.skipParentheses_through htransparent hlast,
                hordered'.skipParentheses_through (hkind ▸ htransparent) hlast']
              refine ih _ ?_ (f.part_children h hmem) rfl
              rw [← hs]
              exact size_sub_lt_of_below (hordered.below_of_mem_children hmem)

theorem dottedName (h : f.Part n) : t'.dottedName (f.place n) = t.dottedName n := by
  induction hs : t.size - n using Nat.strongRecOn generalizing n with
  | _ s ih =>
      rw [Tree.dottedName, Tree.dottedName, f.kind (f.around h), f.name (f.around h), f.qualifier h]
      cases hq : t.qualifier n with
      | none => rfl
      | some q =>
          have hmem := f.qualifier_mem h hq
          have hbelow := hordered.below_of_mem_children hmem
          have hmem' : f.place q ∈ t'.children (f.place n) := by
            rw [f.children h]
            exact List.mem_map_of_mem hmem
          simp only [Option.map_some, dif_pos hbelow,
            dif_pos (hordered'.below_of_mem_children hmem')]
          rw [ih _ (hs ▸ size_sub_lt_of_below hbelow) (f.part_children h hmem) rfl]

end

end Embedding

end Tree

def Declaration.moved (place : NodeId → NodeId) : Declaration → Declaration
  | .localNode d => .localNode (place d)
  | decl => decl

namespace View

def withTree (v : View) (t' : Tree) : View := { v with tree := t' }

variable {v : View} {t' : Tree} (f : v.tree.Embedding t') {u c d : NodeId} {bound n m : Nat}

@[simp] theorem tree_withTree : (v.withTree t').tree = t' := rfl

@[simp] theorem symbols_withTree : (v.withTree t').symbols = v.symbols := rfl

/-! ### Names of classes -/

theorem classNameOf_place (h : f.Around u) :
    (v.withTree t').classNameOf (f.place u) = v.classNameOf u := by
  simp only [classNameOf, tree_withTree, f.kind h]
  split
  · exact f.qualifiedClassName h
  · rw [f.enclosingClass h]
    cases hclass : v.tree.enclosingClass u with
    | none => rfl
    | some k => exact f.qualifiedClassName (f.around_ancestors h (List.mem_of_find?_eq_some hclass))

theorem qualifyType_place (h : f.Around u) (name : String) :
    (v.withTree t').qualifyType name (f.place u) = v.qualifyType name u := by
  rw [qualifyType, qualifyType, classNameOf_place f h, tree_withTree, symbols_withTree, f.imports]

theorem fieldInScope_place (h : f.Around u) (name : String) :
    (v.withTree t').fieldInScope (f.place u) name = v.fieldInScope u name := by
  have himported : (v.withTree t').importedField name = v.importedField name := by
    rw [importedField, importedField, tree_withTree, f.imports, symbols_withTree]
  rw [fieldInScope, fieldInScope, classNameOf_place f h, himported]
  rfl

theorem unqualifiedReceiver_place (h : f.Around u) (name : String) (arity : Nat) :
    (v.withTree t').unqualifiedReceiver (f.place u) name arity =
      v.unqualifiedReceiver u name arity := by
  simp only [unqualifiedReceiver, classNameOf_place f h, tree_withTree, symbols_withTree, f.imports]
  rfl

/-! ### Answers that are not nodes -/

theorem map_moved_of_not_local {o : Option Declaration} (place : NodeId → NodeId)
    (h : ∀ d, o ≠ some (.localNode d)) : o.map (Declaration.moved place) = o := by
  cases o with
  | none => rfl
  | some decl =>
      cases decl with
      | localNode d => exact absurd rfl (h d)
      | _ => rfl

/-- What a name means that nothing declares. -/
theorem undeclared_ne_local (name : String) :
    (v.fieldInScope u name <|> (v.qualifyType name u).map .classNamed) ≠ some (.localNode d) := by
  intro h
  rcases (Option.orElse_eq_some ..).mp h with h | ⟨-, h⟩
  · rcases (Option.orElse_eq_some ..).mp h with h | ⟨-, h⟩
    · rw [SymbolTable.askScopes_eq_findSome?] at h
      obtain ⟨_, -, h⟩ := List.exists_of_findSome?_eq_some h
      obtain ⟨_, -, h⟩ := Option.map_eq_some_iff.mp h
      cases h
    · obtain ⟨_, -, h⟩ := List.exists_of_findSome?_eq_some h
      split at h
      · cases h
      · split at h
        · split at h <;> cases h
        · cases h
  · obtain ⟨_, -, h⟩ := Option.map_eq_some_iff.mp h
    cases h

theorem memberOfClass_ne_local (owner name : String) :
    v.memberOfClass owner name ≠ .localNode d := by
  intro h
  rw [memberOfClass] at h
  split at h
  · cases h
  · split at h
    · cases h
    · split at h <;> cases h

theorem resolveWithin_select_ne_local (hkind : v.tree.kind u = .select) :
    v.resolveWithin n u ≠ some (.localNode d) := by
  intro h
  cases n with
  | zero =>
      rw [resolveWithin] at h
      cases h
  | succ n =>
      rw [resolveWithin] at h
      simp only [hkind] at h
      obtain ⟨y, -, h⟩ := Option.bind_eq_some_iff.mp h
      obtain ⟨q, -, h⟩ := Option.bind_eq_some_iff.mp h
      split at h
      · exact memberOfClass_ne_local _ _ (Option.some.inj h)
      · obtain ⟨_, -, h⟩ := Option.bind_eq_some_iff.mp h
        obtain ⟨_, -, h⟩ := Option.bind_eq_some_iff.mp h
        cases h
      · obtain ⟨_, -, h⟩ := Option.bind_eq_some_iff.mp h
        dsimp only at h
        split at h <;> cases h

theorem resolveWithin_call_ne_local (hkind : v.tree.kind u = .call) :
    v.resolveWithin n u ≠ some (.localNode d) := by
  intro h
  cases n with
  | zero =>
      rw [resolveWithin] at h
      cases h
  | succ n =>
      rw [resolveWithin] at h
      simp only [hkind] at h
      obtain ⟨_, -, h⟩ := Option.bind_eq_some_iff.mp h
      obtain ⟨_, -, h⟩ := Option.bind_eq_some_iff.mp h
      obtain ⟨_, -, h⟩ := Option.bind_eq_some_iff.mp h
      cases h

/-! ### Declarations -/

theorem resolveWithin_declaration (h : f.Around d)
    (hkind : v.tree.kind d = .field ∨ v.tree.kind d = .parameter ∨ v.tree.kind d = .localVariable) :
    (v.withTree t').resolveWithin (m + 1) (f.place d) =
      (v.resolveWithin (n + 1) d).map (Declaration.moved f.place) := by
  rw [resolveWithin, resolveWithin]
  simp only [tree_withTree, f.kind h]
  rcases hkind with hkind | hkind | hkind
  · simp only [hkind, classNameOf_place f h, f.name h]
    cases v.classNameOf d with
    | none => rfl
    | some owner => cases v.tree.name d <;> rfl
  · rw [hkind]
    rfl
  · rw [hkind]
    rfl

/-- A variable or parameter answers with itself, a field does not. -/
theorem of_resolveWithin_declaration
    (hkind : v.tree.kind c = .field ∨ v.tree.kind c = .parameter ∨ v.tree.kind c = .localVariable)
    (h : v.resolveWithin n c = some (.localNode d)) :
    c = d ∧ (v.tree.kind d = .localVariable ∨ v.tree.kind d = .parameter) := by
  cases n with
  | zero =>
      rw [resolveWithin] at h
      cases h
  | succ n =>
      rw [resolveWithin] at h
      rcases hkind with hkind | hkind | hkind
      · simp only [hkind] at h
        obtain ⟨_, -, h⟩ := Option.bind_eq_some_iff.mp h
        obtain ⟨_, -, h⟩ := Option.bind_eq_some_iff.mp h
        cases h
      · simp only [hkind] at h
        cases h
        exact ⟨rfl, .inr hkind⟩
      · simp only [hkind] at h
        cases h
        exact ⟨rfl, .inl hkind⟩

theorem kind_of_resolveLocal {y : String} (h : v.tree.resolveLocal y u = some d) :
    v.tree.kind d = .field ∨ v.tree.kind d = .parameter ∨ v.tree.kind d = .localVariable := by
  obtain ⟨scope, -, child, hdeclared⟩ := Tree.exists_of_resolveThrough h
  exact (Tree.of_declaredIn hdeclared).2.2

/-- A name that refers to a node means a variable or a parameter. -/
theorem exists_of_resolveWithin_reference (hkind : v.tree.kind u = .reference)
    (h : v.resolveWithin n u = some (.localNode d)) :
    ∃ y, v.tree.name u = some y ∧ v.tree.resolveLocal y u = some d ∧
      (v.tree.kind d = .localVariable ∨ v.tree.kind d = .parameter) := by
  cases n with
  | zero =>
      rw [resolveWithin] at h
      cases h
  | succ n =>
      rw [resolveWithin] at h
      simp only [hkind] at h
      obtain ⟨y, hy, h⟩ := Option.bind_eq_some_iff.mp h
      split at h
      · obtain ⟨_, -, h⟩ := Option.map_eq_some_iff.mp h
        cases h
      · split at h
        · rename_i decl hdecl
          obtain ⟨rfl, hd⟩ := of_resolveWithin_declaration (kind_of_resolveLocal hdecl) h
          exact ⟨y, hy, hdecl, hd⟩
        · exact absurd h (undeclared_ne_local y)

/-! ### One step of resolution -/

/-- From a bound on, what a node refers to and its type are the same in both trees. -/
structure AgreesFrom (f : v.tree.Embedding t') (bound : Nat) (u : NodeId) : Prop where
  resolve : ∀ {n m}, bound ≤ n → bound ≤ m → (v.withTree t').resolveWithin m (f.place u) =
    (v.resolveWithin n u).map (Declaration.moved f.place)
  type : ∀ {n m}, bound ≤ n → bound ≤ m →
    (v.withTree t').typeWithin m (f.place u) = v.typeWithin n u

theorem AgreesFrom.mono {bound' : Nat} (h : AgreesFrom f bound u) (hle : bound ≤ bound') :
    AgreesFrom f bound' u where
  resolve hn hm := h.resolve (Nat.le_trans hle hn) (Nat.le_trans hle hm)
  type hn hm := h.type (Nat.le_trans hle hn) (Nat.le_trans hle hm)

/-- All nodes of the part that are finished before a node agree from a bound on. -/
def AgreesBefore (f : v.tree.Embedding t') (bound : Nat) (u : NodeId) : Prop :=
  ∀ c, f.Part c → v.tree.Finishes c u → AgreesFrom f bound c

theorem callWithin_place (h : f.Around u)
    (harguments : (t'.arguments (f.place u)).length = (v.tree.arguments u).length)
    (hqualifier : t'.qualifier (f.place u) = (v.tree.qualifier u).map f.place)
    (hpart : ∀ q, v.tree.qualifier u = some q → f.Part q ∧ AgreesFrom f bound q)
    (hn : bound + 1 ≤ n) (hm : bound + 1 ≤ m) :
    (v.withTree t').callWithin m (f.place u) = v.callWithin n u := by
  obtain ⟨n, rfl⟩ : ∃ k, n = k + 1 := ⟨n - 1, by omega⟩
  obtain ⟨m, rfl⟩ : ∃ k, m = k + 1 := ⟨m - 1, by omega⟩
  rw [callWithin, callWithin]
  simp only [tree_withTree, f.name h, harguments, hqualifier]
  cases hq : v.tree.qualifier u with
  | none =>
      simp only [Option.map_none, unqualifiedReceiver_place f h]
      rfl
  | some q =>
      obtain ⟨hq, hagrees⟩ := hpart q hq
      have hresolve := hagrees.resolve (Nat.le_of_succ_le_succ hn) (Nat.le_of_succ_le_succ hm)
      have htype := hagrees.type (Nat.le_of_succ_le_succ hn) (Nat.le_of_succ_le_succ hm)
      simp only [Option.map_some, f.kind (f.around hq), f.name (f.around hq), classNameOf_place f h,
        hresolve, htype, symbols_withTree]
      cases v.resolveWithin n q with
      | none => rfl
      | some decl => cases decl <;> rfl

theorem declaredWithin_place (h : f.Around d)
    (hkind : v.tree.kind d = .localVariable ∨ v.tree.kind d = .parameter)
    (hpart : v.tree.kind d = .localVariable →
      f.Part d ∧ ∀ c ∈ v.tree.children d, AgreesFrom f bound c)
    (hn : bound + 1 ≤ n) (hm : bound + 1 ≤ m) :
    (v.withTree t').declaredWithin m (f.place d) = v.declaredWithin n d := by
  obtain ⟨n, rfl⟩ : ∃ k, n = k + 1 := ⟨n - 1, by omega⟩
  obtain ⟨m, rfl⟩ : ∃ k, m = k + 1 := ⟨m - 1, by omega⟩
  have htype : ((t'.initializer (f.place d)).bind fun i => (v.withTree t').typeWithin m i) =
      (v.tree.initializer d).bind fun i => v.typeWithin n i := by
    rcases hkind with hkind | hkind
    · obtain ⟨hd, hchildren⟩ := hpart hkind
      rw [f.initializer hd]
      cases hi : v.tree.initializer d with
      | none => rfl
      | some i =>
          exact (hchildren i (Tree.mem_children_of_initializer hi)).type
            (Nat.le_of_succ_le_succ hn) (Nat.le_of_succ_le_succ hm)
    · simp only [Tree.initializer, f.kind h, hkind]
      rfl
  simp only [declaredWithin, tree_withTree, f.typeName h, qualifyType_place f h, htype]

theorem resolveWithin_reference (h : f.Part u) (hkind : v.tree.kind u = .reference) :
    (v.withTree t').resolveWithin (m + 2) (f.place u) =
      (v.resolveWithin (n + 2) u).map (Declaration.moved f.place) := by
  have haround := f.around h
  rw [resolveWithin, resolveWithin]
  simp only [tree_withTree, f.kind haround, f.name haround, hkind, classNameOf_place f haround]
  cases hy : v.tree.name u with
  | none => rfl
  | some y =>
      simp only [Option.bind_eq_bind, Option.bind_some, f.resolveLocal h hy]
      split
      · cases v.classNameOf u <;> rfl
      · cases hd : v.tree.resolveLocal y u with
        | some d =>
            exact resolveWithin_declaration f (f.around_resolved h hd) (kind_of_resolveLocal hd)
        | none =>
            simp only [Option.map_none, fieldInScope_place f haround, qualifyType_place f haround]
            exact (map_moved_of_not_local f.place fun d => undeclared_ne_local y).symm

section

variable (hordered : v.tree.Ordered) (hordered' : t'.Ordered) (h : f.Part u)
  (hbefore : AgreesBefore f bound u)

include hordered h hbefore

theorem AgreesBefore.child (hc : c ∈ v.tree.children u) : AgreesFrom f bound c :=
  hbefore c (f.part_children h hc) (hordered.finishes_of_mem_children hc)

/-- The type of a variable is found in its initializer, before the use of its name. -/
theorem declaredWithin_reference (hkind : v.tree.kind u = .reference)
    (hd : v.resolveWithin n u = some (.localNode d)) (hn : bound + 1 ≤ n) (hm : bound + 1 ≤ m) :
    (v.withTree t').declaredWithin m (f.place d) = v.declaredWithin n d := by
  obtain ⟨y, -, hresolved, hd⟩ := exists_of_resolveWithin_reference hkind hd
  refine declaredWithin_place f (f.around_resolved h hresolved) hd (fun hd => ?_) hn hm
  have hpart := f.part_resolved h hresolved hd
  refine ⟨hpart, fun c hc => ?_⟩
  have hc' := f.part_children hpart hc
  have hfinishes := hordered.finishes_of_mem_children hc
  exact hbefore c hc' (f.finishes_trans hordered hc' hpart h hfinishes
    (.inr (hordered.before_of_resolveLocal hresolved hd)))

theorem callWithin_of_part (hn : bound + 1 ≤ n) (hm : bound + 1 ≤ m) :
    (v.withTree t').callWithin m (f.place u) = v.callWithin n u := by
  refine callWithin_place f (f.around h) (f.length_arguments h) (f.qualifier h) ?_ hn hm
  intro q hq
  have hmem := f.qualifier_mem h hq
  exact ⟨f.part_children h hmem, hbefore.child f hordered h hmem⟩

include hordered'

theorem resolveWithin_select (hkind : v.tree.kind u = .select) (hn : bound ≤ n) (hm : bound ≤ m) :
    (v.withTree t').resolveWithin (m + 1) (f.place u) =
      (v.resolveWithin (n + 1) u).map (Declaration.moved f.place) := by
  have haround := f.around h
  rw [map_moved_of_not_local f.place fun d => resolveWithin_select_ne_local hkind, resolveWithin,
    resolveWithin]
  simp only [tree_withTree, f.kind haround, f.name haround, hkind, f.qualifier h, packagedClass,
    f.dottedName hordered hordered' h]
  cases v.tree.name u with
  | none => rfl
  | some y =>
      cases hq : v.tree.qualifier u with
      | none => rfl
      | some q =>
          have hagrees := hbefore.child f hordered h (f.qualifier_mem h hq)
          simp only [Option.bind_eq_bind, Option.bind_some, Option.map_some, hagrees.resolve hn hm,
            hagrees.type hn hm]
          cases v.resolveWithin n q with
          | none => rfl
          | some decl => cases decl <;> rfl

theorem resolveWithin_parentheses (hkind : (v.tree.kind u).isTransparent = true) (hn : bound ≤ n)
    (hm : bound ≤ m) : (v.withTree t').resolveWithin (m + 1) (f.place u) =
      (v.resolveWithin (n + 1) u).map (Declaration.moved f.place) := by
  have hinside : (if f.place (v.tree.skipParentheses u) == f.place u then none
        else (v.withTree t').resolveWithin m (f.place (v.tree.skipParentheses u))) =
      (if v.tree.skipParentheses u == u then none
        else v.resolveWithin n (v.tree.skipParentheses u)).map (Declaration.moved f.place) := by
    obtain ⟨hinner, heq | hfinishes⟩ :=
      f.part_of_passes hordered (hordered.passes_skipParentheses u) h
    · simp [heq]
    · have hne : v.tree.skipParentheses u ≠ u := fun heq =>
        Tree.not_finishes_self (heq ▸ hfinishes)
      rw [if_neg (by simpa using mt (f.injective hinner h) hne), if_neg (by simpa using hne)]
      exact (hbefore _ hinner hfinishes).resolve hn hm
  rw [resolveWithin, resolveWithin]
  simp only [tree_withTree, f.kind (f.around h), f.skipParentheses hordered hordered' h]
  cases hk : v.tree.kind u with
  | parenthesized | cast => exact hinside
  | _ => simp [hk, NodeKind.isTransparent] at hkind

theorem resolveWithin_place (hn : bound + 2 ≤ n) (hm : bound + 2 ≤ m) :
    (v.withTree t').resolveWithin m (f.place u) =
      (v.resolveWithin n u).map (Declaration.moved f.place) := by
  obtain ⟨n, rfl⟩ : ∃ k, n = k + 2 := ⟨n - 2, by omega⟩
  obtain ⟨m, rfl⟩ : ∃ k, m = k + 2 := ⟨m - 2, by omega⟩
  have haround := f.around h
  have hn' : bound + 1 ≤ n + 1 := by omega
  have hm' : bound + 1 ≤ m + 1 := by omega
  cases hkind : v.tree.kind u with
  | reference => exact resolveWithin_reference f h hkind
  | select =>
      exact resolveWithin_select f hordered hordered' h hbefore hkind (Nat.le_of_succ_le hn')
        (Nat.le_of_succ_le hm')
  | call =>
      rw [map_moved_of_not_local f.place fun d => resolveWithin_call_ne_local hkind, resolveWithin,
        resolveWithin]
      simp only [tree_withTree, f.kind haround, hkind,
        callWithin_of_part f hordered h hbefore hn' hm']
  | parenthesized | cast =>
      exact resolveWithin_parentheses f hordered hordered' h hbefore (by rw [hkind]; rfl)
        (Nat.le_of_succ_le hn') (Nat.le_of_succ_le hm')
  | field => exact resolveWithin_declaration f haround (.inl hkind)
  | parameter => exact resolveWithin_declaration f haround (.inr (.inl hkind))
  | localVariable => exact resolveWithin_declaration f haround (.inr (.inr hkind))
  | new =>
      rw [resolveWithin, resolveWithin]
      simp only [tree_withTree, f.kind haround, hkind, f.typeName haround,
        qualifyType_place f haround]
      cases (v.tree.typeName u).bind fun type => v.qualifyType type u <;> rfl
  | classDecl =>
      rw [resolveWithin, resolveWithin]
      simp only [tree_withTree, f.kind haround, hkind, f.qualifiedClassName haround]
      cases v.tree.qualifiedClassName u <;> rfl
  | method =>
      rw [resolveWithin, resolveWithin]
      simp only [tree_withTree, f.kind haround, hkind, f.name haround, f.length_parameters h,
        classNameOf_place f haround]
      cases v.classNameOf u with
      | none => rfl
      | some owner => cases v.tree.name u <;> rfl
  | annotationUse =>
      rw [resolveWithin, resolveWithin]
      simp only [tree_withTree, f.kind haround, hkind, f.name haround, qualifyType_place f haround]
      cases v.tree.name u <;> rfl
  | _ =>
      rw [resolveWithin, resolveWithin]
      simp only [tree_withTree, f.kind haround, hkind]
      rfl

theorem typeWithin_place (hn : bound + 3 ≤ n) (hm : bound + 3 ≤ m) :
    (v.withTree t').typeWithin m (f.place u) = v.typeWithin n u := by
  obtain ⟨n, rfl⟩ : ∃ k, n = k + 1 := ⟨n - 1, by omega⟩
  obtain ⟨m, rfl⟩ : ∃ k, m = k + 1 := ⟨m - 1, by omega⟩
  have hn' : bound + 2 ≤ n := by omega
  have hm' : bound + 2 ≤ m := by omega
  have haround := f.around h
  have hpart : ∀ c ∈ v.tree.children u,
      (v.withTree t').typeWithin m (f.place c) = v.typeWithin n c := fun c hc =>
    (hbefore.child f hordered h hc).type (by omega) (by omega)
  have hchild : ∀ i : Nat,
      ((t'.children (f.place u))[i]?.bind fun c => (v.withTree t').typeWithin m c) =
        (v.tree.children u)[i]?.bind fun c => v.typeWithin n c := by
    intro i
    rw [f.children h, List.getElem?_map]
    cases hc : (v.tree.children u)[i]? with
    | none => rfl
    | some c => exact hpart c (List.mem_of_getElem? hc)
  have hresolve := resolveWithin_place f hordered hordered' h hbefore hn' hm'
  rw [typeWithin, typeWithin]
  simp only [tree_withTree, f.kind haround, f.literal haround, f.operator haround,
    f.typeName haround, qualifyType_place f haround, hchild]
  cases hkind : v.tree.kind u with
  | reference =>
      dsimp only
      rw [hresolve]
      cases hd : v.resolveWithin n u with
      | none => rfl
      | some decl =>
          cases decl with
          | localNode d =>
              exact declaredWithin_reference f hordered h hbefore hkind hd (by omega) (by omega)
          | _ => rfl
  | select =>
      dsimp only
      rw [hresolve]
      cases hd : v.resolveWithin n u with
      | none => rfl
      | some decl =>
          cases decl with
          | localNode d => exact absurd hd (resolveWithin_select_ne_local hkind)
          | _ => rfl
  | call =>
      dsimp only
      rw [callWithin_of_part f hordered h hbefore (Nat.le_of_succ_le hn') (Nat.le_of_succ_le hm')]
  | parenthesized =>
      dsimp only
      rw [f.children h, List.getLast?_map]
      cases hlast : (v.tree.children u).getLast? with
      | none => rfl
      | some c => exact hpart c (List.mem_of_getLast? hlast)
  | _ => rfl

omit hbefore

/-! ### The whole search -/

/-- Four calls for each node that is finished before are enough. -/
theorem agreesFrom_rank : AgreesFrom f (4 * v.tree.rank u + 3) u := by
  induction hr : v.tree.rank u using Nat.strongRecOn generalizing u with
  | _ r ih =>
      have hbefore : AgreesBefore f (4 * r) u := by
        intro c hc hfinishes
        have hlt := hordered.rank_lt (f.lt_size hc) (f.lt_size h) hfinishes
        exact (ih _ (hr ▸ hlt) hc rfl).mono f (by omega)
      exact ⟨fun hn hm => resolveWithin_place f hordered hordered' h hbefore (by omega) (by omega),
        fun hn hm => typeWithin_place f hordered hordered' h hbefore hn hm⟩

theorem agreesFrom_size : AgreesFrom f (4 * v.tree.size + 3) u := by
  have hrank := Tree.rank_le_size (t := v.tree) (u := u)
  exact (agreesFrom_rank f hordered hordered' h).mono f (by omega)

theorem resolve_place :
    (v.withTree t').resolve (f.place u) = (v.resolve u).map (Declaration.moved f.place) := by
  have hsize := f.size_le
  refine (agreesFrom_size f hordered hordered' h).resolve ?_ ?_
  · rw [bound]
    omega
  · rw [bound, tree_withTree]
    omega

omit h

/-- A call around the part is bound alike if its receiver is in the part. -/
theorem resolveCall_place (h : f.Around u)
    (harguments : (t'.arguments (f.place u)).length = (v.tree.arguments u).length)
    (hqualifier : t'.qualifier (f.place u) = (v.tree.qualifier u).map f.place)
    (hpart : ∀ q, v.tree.qualifier u = some q → f.Part q) :
    (v.withTree t').resolveCall (f.place u) = v.resolveCall u := by
  have hagrees : ∀ q, v.tree.qualifier u = some q →
      f.Part q ∧ AgreesFrom f (4 * v.tree.size + 3) q := fun q hq =>
    ⟨hpart q hq, agreesFrom_size f hordered hordered' (hpart q hq)⟩
  have hsize := f.size_le
  refine callWithin_place f h harguments hqualifier hagrees ?_ ?_
  · rw [bound]
    omega
  · rw [bound, tree_withTree]
    omega

end

end View

end LintEngine
