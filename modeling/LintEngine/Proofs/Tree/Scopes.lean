import LintEngine.Proofs.Symbols.Table
import LintEngine.Proofs.Tree.PreOrder
import LintEngine.Symbols.Index
import Mathlib.Data.List.Basic

/-!
Names and the classes around a node. A class is named after the classes around
it, so its qualified name is longer than theirs. A simple name used in the
initializer of a field is searched in the class of the field and outward from
there; if a field answers, it stands in one of the classes on that way.
-/

namespace LintEngine

namespace Tree

variable {t : Tree} {k c d i : NodeId} {x : String}

/-! ### Classes around a class -/

def classesFrom (t : Tree) (id : NodeId) : List NodeId :=
  (t.selfAndAncestors id).filter fun a => t.kind a == .classDecl

theorem mem_classesFrom : k ∈ t.classesFrom c ↔ k ∈ t.selfAndAncestors c ∧ t.kind k = .classDecl := by
  rw [classesFrom, List.mem_filter, beq_iff_eq]

theorem self_mem_classesFrom (h : t.kind c = .classDecl) : c ∈ t.classesFrom c :=
  mem_classesFrom.mpr ⟨self_mem_selfAndAncestors, h⟩

theorem mem_classesFrom_trans {n : NodeId} (h₁ : k ∈ t.classesFrom c) (h₂ : c ∈ t.classesFrom n) :
    k ∈ t.classesFrom n := by
  rw [mem_classesFrom] at h₁ h₂ ⊢
  exact ⟨mem_selfAndAncestors_trans h₁.1 h₂.1, h₁.2⟩

theorem classesFrom_eq_cons (hc : t.kind c = .classDecl) :
    t.classesFrom c = c :: (t.ancestors c).filter fun a => t.kind a == .classDecl := by
  rw [classesFrom, selfAndAncestors, List.filter_cons]
  exact if_pos (beq_iff_eq.mpr hc)

theorem kind_of_enclosingClass (h : t.enclosingClass c = some k) : t.kind k = .classDecl :=
  beq_iff_eq.mp (List.find?_some (p := fun a => t.kind a == .classDecl) h)

/-- The next class outward begins the rest of the classes. -/
theorem classes_of_enclosingClass (h : t.enclosingClass c = some k) :
    (t.ancestors c).filter (fun a => t.kind a == .classDecl) = t.classesFrom k := by
  obtain ⟨hk, before, after, hsplit, hbefore⟩ := List.find?_eq_some_iff_append.mp h
  have hchain : t.selfAndAncestors k = k :: after :=
    selfAndAncestors_eq_of_suffix (n := c) ⟨c :: before, by rw [selfAndAncestors, hsplit]; rfl⟩
  have hnone : before.filter (fun a => t.kind a == .classDecl) = [] :=
    List.filter_eq_nil_iff.mpr fun a ha hclass => by
      have := hbefore a ha
      rw [hclass] at this
      cases this
  rw [hsplit, List.filter_append, hnone, List.nil_append, classesFrom, hchain]

theorem classesFrom_of_enclosingClass (hc : t.kind c = .classDecl) (h : t.enclosingClass c = some k) :
    t.classesFrom c = c :: t.classesFrom k := by
  rw [classesFrom_eq_cons hc, classes_of_enclosingClass h]

/-- A class on the way outward is the class itself or on the way from the next
one. -/
theorem eq_or_mem_of_mem_classesFrom (hc : t.kind c = .classDecl) (h : k ∈ t.classesFrom c) :
    k = c ∨ ∃ outer, t.enclosingClass c = some outer ∧ k ∈ t.classesFrom outer := by
  cases houter : t.enclosingClass c with
  | some outer =>
      rw [classesFrom_of_enclosingClass hc houter] at h
      exact (List.mem_cons.mp h).imp_right fun h => ⟨outer, rfl, h⟩
  | none =>
      refine .inl (Classical.byContradiction fun hne => ?_)
      obtain ⟨hmem, hclass⟩ := mem_classesFrom.mp h
      have hk := List.find?_eq_none.mp houter k ((List.mem_cons.mp hmem).resolve_left hne)
      exact hk (beq_iff_eq.mpr hclass)

/-! ### Qualified names -/

theorem classNames_of_enclosingClass {names : List String} (h : t.enclosingClass c = some k)
    (hnames : t.classNames c = some names) :
    ∃ own outer, t.classNames k = some outer ∧ names = outer ++ [own] := by
  rw [classNames, classes_of_enclosingClass h] at hnames
  obtain ⟨own, -, hnames⟩ := Option.bind_eq_some_iff.mp hnames
  obtain ⟨around, haround, hnames⟩ := Option.bind_eq_some_iff.mp hnames
  cases hnames
  rw [classesFrom_eq_cons (kind_of_enclosingClass h), List.mapM_cons] at haround
  obtain ⟨name, hname, haround⟩ := Option.bind_eq_some_iff.mp haround
  obtain ⟨outer, houter, haround⟩ := Option.bind_eq_some_iff.mp haround
  cases haround
  refine ⟨own, (name :: outer).reverse, ?_, List.reverse_cons⟩
  rw [classNames, hname, houter]
  rfl

theorem qualifiedClassName_of_enclosingClass {name : String} (h : t.enclosingClass c = some k)
    (hname : t.qualifiedClassName c = some name) :
    ∃ outer, t.qualifiedClassName k = some outer ∧ outer.length < name.length := by
  rw [qualifiedClassName] at hname
  obtain ⟨names, hnames, hname⟩ := Option.bind_eq_some_iff.mp hname
  obtain ⟨own, outer, houter, rfl⟩ := classNames_of_enclosingClass h hnames
  cases hname
  have hne : outer ≠ [] := by
    rw [classNames] at houter
    obtain ⟨_, -, houter⟩ := Option.bind_eq_some_iff.mp houter
    obtain ⟨_, -, houter⟩ := Option.bind_eq_some_iff.mp houter
    cases houter
    simp
  -- a point and the own name are added
  have hlength : (Text.join "." outer).length < (Text.join "." (outer ++ [own])).length := by
    rw [Text.join, Text.join, String.intercalate_append_of_ne_nil hne (List.cons_ne_nil _ _),
      String.length_append, String.length_append]
    exact Nat.lt_of_lt_of_le (Nat.lt_add_of_pos_right (by decide)) (Nat.le_add_right _ _)
  refine ⟨_, by rw [qualifiedClassName, houter]; rfl, ?_⟩
  split
  · exact hlength
  · rw [String.length_append, String.length_append (s := t.imports.package ++ ".")]
    exact Nat.add_lt_add_left hlength _

def firstClass? (t : Tree) (name : String) : Option NodeId :=
  t.ids.find? fun k => t.kind k == .classDecl && t.qualifiedClassName k == some name

theorem of_firstClass? {name : String} (h : t.firstClass? name = some k) :
    t.kind k = .classDecl ∧ t.qualifiedClassName k = some name := by
  have hfound : (t.kind k == .classDecl && t.qualifiedClassName k == some name) = true :=
    List.find?_some (p := fun k => t.kind k == .classDecl && t.qualifiedClassName k == some name) h
  rw [Bool.and_eq_true] at hfound
  exact ⟨beq_iff_eq.mp hfound.1, beq_iff_eq.mp hfound.2⟩

theorem find?_classSymbols (hcode : t.phase.hasCode = true) (name : String) :
    t.classSymbols.find? (·.name == name) = (t.firstClass? name).bind t.classSymbol := by
  rw [classSymbols, if_pos hcode, List.find?_filterMap, SymbolTable.find?_filter_and]
  refine congrArg (fun p => (t.ids.find? p).bind t.classSymbol) (funext fun k => ?_)
  refine congrArg (_ && ·) ?_
  rw [classSymbol]
  cases t.qualifiedClassName k <;> rfl

/-- The symbols of a unit begin, for each name, with that of its first class. -/
theorem exists_classSymbol_of_firstClass? {name : String} (hcode : t.phase.hasCode = true)
    (h : t.firstClass? name = some k) :
    ∃ s, t.classSymbol k = some s ∧ s.name = name ∧
      t.classSymbols.find? (·.name == name) = some s := by
  rw [find?_classSymbols hcode, h, Option.bind_some, classSymbol, (of_firstClass? h).2]
  exact ⟨_, rfl, rfl, rfl⟩

/-! ### Simple names -/

theorem exists_of_resolveThrough {child : NodeId} {scopes : List NodeId}
    (h : t.resolveThrough x child scopes = some d) :
    ∃ scope ∈ scopes, ∃ child, t.declaredIn scope child x = some d := by
  induction scopes generalizing child with
  | nil => cases h
  | cons scope scopes ih =>
      rw [resolveThrough] at h
      split at h
      · rename_i d' hd'
        cases h
        exact ⟨scope, List.mem_cons_self, child, hd'⟩
      · obtain ⟨scope', hmem, hdeclared⟩ := ih h
        exact ⟨scope', List.mem_cons_of_mem _ hmem, hdeclared⟩

theorem of_find?_named {l : List NodeId} {p : NodeId → Bool}
    (h : l.find? (fun c => p c && t.name c == some x) = some d) :
    d ∈ l ∧ p d = true ∧ t.name d = some x := by
  have hfound := List.find?_some h
  simp only [Bool.and_eq_true, beq_iff_eq] at hfound
  exact ⟨List.mem_of_find?_eq_some h, hfound⟩

/-- What a scope offers for a name is a variable or field with that name. -/
theorem of_declaredIn {scope child : NodeId} (h : t.declaredIn scope child x = some d) :
    d ∈ t.children scope ∧ t.name d = some x ∧
      (t.kind d = .field ∨ t.kind d = .parameter ∨ t.kind d = .localVariable) := by
  rw [declaredIn] at h
  split at h
  · obtain ⟨hmem, hkind, hname⟩ := of_find?_named h
    exact ⟨hmem, hname, .inl (beq_iff_eq.mp hkind)⟩
  · obtain ⟨hmem, hkind, hname⟩ := of_find?_named h
    exact ⟨hmem, hname, .inr (.inl (beq_iff_eq.mp hkind))⟩
  · obtain ⟨hmem, hkind, hname⟩ := of_find?_named h
    exact ⟨hmem, hname, .inr (.inl (beq_iff_eq.mp hkind))⟩
  · obtain ⟨hmem, hkind, hname⟩ := of_find?_named h
    simp only [Bool.or_eq_true, beq_iff_eq] at hkind
    have hmem := List.mem_reverse.mp hmem
    split at hmem
    · exact ⟨(List.takeWhile_sublist _).subset hmem, hname, .inr hkind.symm⟩
    · cases hmem

def fieldNamed? (t : Tree) (c : NodeId) (x : String) : Option NodeId :=
  (t.children c).find? fun f => t.kind f == .field && t.name f == some x

theorem fieldNamed?_of_declaredIn {scope child : NodeId} (h : t.declaredIn scope child x = some d)
    (hd : t.kind d = .field) : t.kind scope = .classDecl ∧ t.fieldNamed? scope x = some d := by
  rw [declaredIn] at h
  split at h
  · exact ⟨‹_›, h⟩
  all_goals
    obtain ⟨-, hkind, -⟩ := of_find?_named h
    simp [hd] at hkind

/-! ### Initializers -/

def Initializes (t : Tree) (k i : NodeId) : Prop :=
  ∃ f, t.kind f = .field ∧ t.parent f = some k ∧ t.initializer f = some i

theorem mem_children_of_initializer {f : NodeId} (h : t.initializer f = some i) :
    i ∈ t.children f := by
  rw [initializer] at h
  split at h
  · exact List.mem_reverse.mp (List.mem_of_find?_eq_some h)
  · exact List.mem_reverse.mp (List.mem_of_find?_eq_some h)
  · cases h

namespace Ordered

variable (h : t.Ordered)

include h

theorem enclosingClass_of_parent (hd : t.parent d = some k) (hk : t.kind k = .classDecl) :
    t.enclosingClass d = some k := by
  rw [enclosingClass, enclosing, h.ancestors_of_parent hd, selfAndAncestors]
  exact List.find?_cons_of_pos (beq_iff_eq.mpr hk)

theorem ancestors_initializer {f : NodeId} (hf : t.parent f = some k)
    (hi : t.initializer f = some i) : t.ancestors i = f :: t.selfAndAncestors k := by
  rw [h.ancestors_of_parent (h.mem_children.mp (mem_children_of_initializer hi)), selfAndAncestors,
    h.ancestors_of_parent hf]

theorem enclosingClass_initializer (hi : t.Initializes k i) (hk : t.kind k = .classDecl) :
    t.enclosingClass i = some k := by
  obtain ⟨f, hf, hparent, hinitializer⟩ := hi
  rw [enclosingClass, enclosing, h.ancestors_initializer hparent hinitializer, selfAndAncestors,
    List.find?_cons_of_neg (by simp [hf])]
  exact List.find?_cons_of_pos (beq_iff_eq.mpr hk)

/-- A field that answers a name in an initializer is the first field of that name
in a class from the initializer's class outward. -/
theorem exists_home_of_resolveLocal (hi : t.Initializes k i) (hd : t.kind d = .field)
    (hresolve : t.resolveLocal x i = some d) :
    ∃ home ∈ t.classesFrom k, t.fieldNamed? home x = some d ∧ t.parent d = some home := by
  obtain ⟨f, hf, hparent, hinitializer⟩ := hi
  rw [resolveLocal, h.ancestors_initializer hparent hinitializer] at hresolve
  obtain ⟨home, hmem, child, hdeclared⟩ := exists_of_resolveThrough hresolve
  obtain ⟨hclass, hfound⟩ := fieldNamed?_of_declaredIn hdeclared hd
  have hchild := h.mem_children.mp (List.mem_of_find?_eq_some hfound)
  refine ⟨home, mem_classesFrom.mpr ⟨?_, hclass⟩, hfound, hchild⟩
  refine (List.mem_cons.mp hmem).resolve_left fun heq => ?_
  rw [heq, hf] at hclass
  cases hclass

end Ordered

end Tree

end LintEngine
