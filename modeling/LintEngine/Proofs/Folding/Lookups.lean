import LintEngine.Folding.Constant
import LintEngine.Proofs.Symbols.Outward
import LintEngine.Proofs.Tree.Scopes
import Mathlib.Data.List.Forall2

/-!
The two ways to fold an initializer. The names in it are looked up through the
tree, by the scopes around the initializer, or through the symbol table, by the
classes around its class and what they inherit.

A name is plain for a class if the field that the tree finds is also the only
one that the table can find on its way there. Where all names are plain, or the
others happen to have the same value both ways, both ways fold alike; this is
the main statement, and it is exact.
-/

namespace LintEngine

variable {t : Tree}

/-- A class keeps its fields under their names. A field without a name is kept
under the empty one. -/
theorem Tree.field?_of_classSymbol {home d : NodeId} {s : ClassSymbol} {x : String}
    (hs : t.classSymbol home = some s) (hx : x ≠ "") (hd : t.fieldNamed? home x = some d) :
    s.field? x = some (t.fieldSymbol s.name d) := by
  obtain ⟨name, -, rfl⟩ := Option.map_eq_some_iff.mp hs
  have hpred : (fun f => t.kind f == .field && (((·.name == x) ∘ t.fieldSymbol name) f)) =
      fun f => t.kind f == .field && t.name f == some x := by
    funext f
    refine congrArg (_ && ·) ?_
    change ((t.name f).getD "" == x) = (t.name f == some x)
    cases t.name f with
    | none => exact beq_false_of_ne (Ne.symm hx)
    | some name => rfl
  rw [ClassSymbol.field?, List.find?_map, Tree.childrenOfKind, SymbolTable.find?_filter_and, hpred]
  exact congrArg (Option.map _) hd

namespace View

variable (v : View)

/-! ### Plain names -/

/-- A class of the unit that the symbol table knows under its name. -/
structure IsIndexed (k : NodeId) (name : String) : Prop where
  kind : v.tree.kind k = .classDecl
  named : name ≠ ""
  symbol : ∃ known s, v.tree.classSymbol k = some s ∧ s.name = name ∧
    v.symbols.class? name = some (SymbolTable.qualifyClass known s)

/-- On the way outward from one class to another, the table knows all classes, and
no class has or inherits a field of a name that is not a field of the last one. -/
def LeadsTo (x : String) (c home : NodeId) : Prop :=
  ∀ k ∈ v.tree.classesFrom c, home ∈ v.tree.classesFrom k →
    ∃ name, v.IsIndexed k name ∧ ∀ owner f, v.symbols.findField name x = some (owner, f) →
      v.tree.qualifiedClassName home = some owner.name

/-- A name that a class takes from a field, whichever way it is looked up. -/
structure IsPlain (c : NodeId) (x : String) (d : NodeId) : Prop where
  named : x ≠ ""
  field : v.tree.kind d = .field
  way : ∃ home, v.tree.enclosingClass d = some home ∧ v.LeadsTo x c home

variable {v} {c k home d i : NodeId} {name x : String}

theorem IsIndexed.qualifiedClassName (h : v.IsIndexed k name) :
    v.tree.qualifiedClassName k = some name := by
  obtain ⟨-, s, hs, hname, -⟩ := h.symbol
  obtain ⟨own, hown, rfl⟩ := Option.map_eq_some_iff.mp hs
  rw [hown, ← hname]

/-- The class that the table holds for a class of the unit, with one of its
fields. -/
theorem IsIndexed.exists_field (h : v.IsIndexed home name) (hx : x ≠ "")
    (hd : v.tree.fieldNamed? home x = some d) :
    ∃ owner f, v.symbols.class? name = some owner ∧ owner.field? x = some f ∧
      owner.kind = ((v.tree.node home).classKind).getD .plain ∧
      f.modifiers = (v.tree.node d).modifiers ∧
      f.initializer = (v.tree.initializer d).map (Expr.ofNode v.tree) := by
  obtain ⟨known, s, hs, hname, hclass⟩ := h.symbol
  obtain ⟨f, hf, hmodifiers, hinitializer⟩ :=
    SymbolTable.field?_qualifyClass known (Tree.field?_of_classSymbol hs hx hd)
  refine ⟨_, f, hclass, hf, ?_, hmodifiers, hinitializer⟩
  obtain ⟨own, -, rfl⟩ := Option.map_eq_some_iff.mp hs
  rfl

/-- The next class that the table searches is the next one in the tree. -/
theorem IsIndexed.outer (h : v.IsIndexed k name) {owner : ClassSymbol}
    (howner : v.symbols.class? name = some owner) :
    owner.outer = (v.tree.enclosingClass k).bind v.tree.qualifiedClassName := by
  obtain ⟨known, s, hs, -, hclass⟩ := h.symbol
  obtain ⟨own, -, rfl⟩ := Option.map_eq_some_iff.mp hs
  rw [howner] at hclass
  cases hclass
  rfl

theorem LeadsTo.of_mem (h : v.LeadsTo x c home) (hk : k ∈ v.tree.classesFrom c) :
    v.LeadsTo x k home :=
  fun k' hk' hbelow => h k' (Tree.mem_classesFrom_trans hk' hk) hbelow

/-- From every class on the way, the table finds the field of the last one. -/
theorem LeadsTo.findSome?_outerChain (hway : v.LeadsTo x k home)
    (hbelow : home ∈ v.tree.classesFrom k) (hk : v.IsIndexed k name) {homeName : String}
    (hhome : v.tree.qualifiedClassName home = some homeName) {owner : ClassSymbol}
    {f : FieldSymbol} (howner : v.symbols.class? homeName = some owner)
    (hf : owner.field? x = some f) {n : Nat} (hn : v.symbols.countUpTo name ≤ n) :
    (v.symbols.outerChain n name).findSome? (fun o => v.symbols.findField o x) =
      some (owner, f) := by
  induction n generalizing k name with
  | zero =>
      obtain ⟨_, _, -, -, hclass⟩ := hk.symbol
      exact absurd (SymbolTable.countUpTo_pos hclass) (Nat.not_lt.mpr hn)
  | succ n ih =>
      rw [SymbolTable.outerChain, List.findSome?_cons]
      cases hfound : v.symbols.findField name x with
      | some found =>
          -- the class has or inherits such a field; it can only be the one in question
          obtain ⟨name', hk', honly⟩ := hway k (Tree.self_mem_classesFrom hk.kind) hbelow
          obtain rfl : name' = name :=
            Option.some.inj (hk'.qualifiedClassName.symm.trans hk.qualifiedClassName)
          have hsame : homeName = found.1.name :=
            Option.some.inj (hhome.symm.trans (honly found.1 found.2 hfound))
          obtain ⟨hclass, hfield⟩ := SymbolTable.of_findField hfound
          rw [← hsame, howner] at hclass
          obtain rfl := Option.some.inj hclass
          rw [hf] at hfield
          rw [Option.some.inj hfield]
      | none =>
          -- the search goes on with the next class, which is not beyond `home`
          obtain ⟨_, s, -, -, hclass⟩ := hk.symbol
          rcases Tree.eq_or_mem_of_mem_classesFrom hk.kind hbelow with rfl | ⟨k', hnext, hmem⟩
          · rw [hk.qualifiedClassName] at hhome
            rw [Option.some.inj hhome, SymbolTable.findField_of_field? howner hf] at hfound
            cases hfound
          · have hkind := Tree.kind_of_enclosingClass hnext
            have hk' : k' ∈ v.tree.classesFrom k := by
              rw [Tree.classesFrom_of_enclosingClass hk.kind hnext]
              exact List.mem_cons_of_mem _ (Tree.self_mem_classesFrom hkind)
            obtain ⟨outer, hindexed, -⟩ := hway k' hk' hmem
            obtain ⟨_, houter, hlt⟩ :=
              Tree.qualifiedClassName_of_enclosingClass hnext hk.qualifiedClassName
            obtain rfl := Option.some.inj (houter.symm.trans hindexed.qualifiedClassName)
            have hlink := hk.outer hclass
            rw [hnext, Option.bind_some, houter] at hlink
            rw [hclass, Option.bind_some, hlink]
            exact ih (hway.of_mem hk') hmem hindexed
              (Nat.le_of_lt_succ (Nat.lt_of_lt_of_le (SymbolTable.countUpTo_lt hclass hlt) hn))

section

variable (hordered : v.tree.Ordered)

include hordered

/-- A plain name means the same field in the tree and in the table. -/
theorem IsPlain.fieldCandidates (hplain : v.IsPlain c x d) (hc : v.IsIndexed c name)
    (hi : v.tree.Initializes c i) (hd : v.tree.resolveLocal x i = some d) :
    ∃ home owner f, home ∈ v.tree.classesFrom c ∧ v.tree.parent d = some home ∧
      v.IsIndexed home owner.name ∧ v.fieldCandidates (some name) none x = [(owner, f)] ∧
      isConstantField owner f = v.isConstantNode d ∧
      f.initializer = (v.tree.initializer d).map (Expr.ofNode v.tree) := by
  obtain ⟨home, hmem, hnamed, hparent⟩ := hordered.exists_home_of_resolveLocal hi hplain.field hd
  have hhome := hordered.enclosingClass_of_parent hparent (Tree.mem_classesFrom.mp hmem).2
  obtain ⟨home', hhome', hway⟩ := hplain.way
  obtain rfl : home = home' := Option.some.inj (hhome.symm.trans hhome')
  obtain ⟨homeName, hindexed, -⟩ :=
    hway home hmem (Tree.self_mem_classesFrom (Tree.mem_classesFrom.mp hmem).2)
  obtain ⟨owner, f, howner, hf, hkind, hmodifiers, hinitializer⟩ :=
    hindexed.exists_field hplain.named hnamed
  have hfound : (v.symbols.lexicalScopes (some name)).findSome?
      (fun o => v.symbols.findField o x) = some (owner, f) :=
    hway.findSome?_outerChain hmem hc hindexed.qualifiedClassName howner hf
      (Nat.le_succ_of_le (v.symbols.countUpTo_le name))
  obtain rfl := SymbolTable.name_of_class? howner
  refine ⟨home, owner, f, hmem, hparent, hindexed, ?_, ?_, hinitializer⟩
  · simp only [View.fieldCandidates, SymbolTable.askScopes_eq_findSome?, hfound]
  · have hfield : (v.tree.node d).kind = .field := hplain.field
    simp only [isConstantField, isConstantNode, hfield, hhome, Option.bind_some, hmodifiers, hkind]
    cases (v.tree.node home).classKind <;> rfl

end

/-! ### Folding -/

section

variable {depth : Nat} {qualifier : Option String}

theorem fold_declared (h : v.tree.resolveLocal x i = some d) :
    v.fold (depth + 1) (.node i) (.reference none x) =
      if v.isConstantNode d then
        (v.tree.initializer d).bind fun j => v.fold depth (.node j) (Expr.ofNode v.tree j)
      else none := by
  simp only [fold, h]

theorem fold_inClass (hname : name ≠ "") :
    v.fold (depth + 1) (.inClass name) (.reference qualifier x) =
      (v.fieldCandidates (some name) qualifier x).findSome? fun (owner, f) =>
        if isConstantField owner f then
          f.initializer.bind fun e => v.fold depth (.inClass owner.name) e
        else none := by
  have hscope : v.scopeClass (.inClass name) = some name := by
    rw [scopeClass, if_neg (mt String.isEmpty_iff.mp hname)]
  simp only [fold, hscope]

/-- A name that no scope of the tree declares is looked up in the table
anyway. -/
theorem fold_undeclared (h : qualifier = none → v.tree.resolveLocal x i = none)
    (hclass : v.classNameOf i = some name) (hname : name ≠ "") :
    v.fold (depth + 1) (.node i) (.reference qualifier x) =
      v.fold (depth + 1) (.inClass name) (.reference qualifier x) := by
  rw [fold_inClass hname]
  cases qualifier with
  | none => simp only [fold, h rfl, scopeClass, hclass]
  | some q => simp only [fold, scopeClass, hclass]

end

variable (v) in
/-- An expression has the same value at a node and in a class, at every depth. -/
def FoldsAlike (i : NodeId) (name : String) (e : Expr) : Prop :=
  ∀ depth, v.fold depth (.node i) e = v.fold depth (.inClass name) e

variable (v) in
/-- The place of an expression that initializes a field, in a class that the table
knows and that is `c` or around it. -/
structure IsPlace (c k : NodeId) (name : String) (i : NodeId) : Prop where
  around : k ∈ v.tree.classesFrom c
  indexed : v.IsIndexed k name
  initializes : v.tree.Initializes k i
  expression : v.tree.kind i ≠ .classDecl

theorem ofNode_classDecl (h : t.kind i = .classDecl) : Expr.ofNode t i = .unknown := by
  have hkind : (t.node i).kind = .classDecl := h
  rw [Expr.ofNode]
  simp only [hkind]

theorem fold_unknown (depth : Nat) (scope : EvalScope) : v.fold depth scope .unknown = none := by
  cases depth <;> rfl

section

variable (hordered : v.tree.Ordered)

include hordered

theorem IsPlace.classNameOf (h : v.IsPlace c k name i) : v.classNameOf i = some name := by
  rw [View.classNameOf, if_neg (by simpa using h.expression),
    hordered.enclosingClass_initializer h.initializes h.indexed.kind]
  exact h.indexed.qualifiedClassName

/-- A plain name folds alike if initializers do with less depth left. -/
theorem IsPlace.fold_plain (h : v.IsPlace c k name i) (hd : v.tree.resolveLocal x i = some d)
    (hplain : v.IsPlain k x d) {depth : Nat}
    (ih : ∀ home homeName j, v.IsPlace c home homeName j →
      v.fold depth (.node j) (Expr.ofNode v.tree j) =
        v.fold depth (.inClass homeName) (Expr.ofNode v.tree j)) :
    v.fold (depth + 1) (.node i) (.reference none x) =
      v.fold (depth + 1) (.inClass name) (.reference none x) := by
  obtain ⟨home, owner, f, hhome, hparent, hindexed, hcandidates, hconstant, hinitializer⟩ :=
    hplain.fieldCandidates hordered h.indexed h.initializes hd
  rw [fold_declared hd, fold_inClass h.indexed.named, hcandidates, List.findSome?_singleton]
  dsimp only
  rw [hconstant, hinitializer]
  split
  · cases hj : v.tree.initializer d with
    | none => rfl
    | some j =>
        simp only [Option.bind_some, Option.map_some]
        -- the recursion goes on in the class of the field, with the same expression
        by_cases hexpression : v.tree.kind j = .classDecl
        · rw [ofNode_classDecl hexpression, fold_unknown, fold_unknown]
        · exact ih home owner.name j ⟨Tree.mem_classesFrom_trans hhome h.around, hindexed,
            ⟨d, hplain.field, hparent, hj⟩, hexpression⟩
  · rfl

/-- If all names but the plain ones fold alike, everything does. -/
theorem IsPlace.foldsAlike
    (hnames : ∀ k name i, v.IsPlace c k name i → ∀ x d, v.tree.resolveLocal x i = some d →
      ¬v.IsPlain k x d → v.FoldsAlike i name (.reference none x))
    (hplace : v.IsPlace c k name i) (e : Expr) : v.FoldsAlike i name e := by
  intro depth
  induction depth generalizing k name i e with
  | zero => rfl
  | succ depth ih =>
      cases e with
      | literal l => rfl
      | reference qualifier x =>
          have hclass := hplace.classNameOf hordered
          cases qualifier with
          | some q => exact fold_undeclared (by simp) hclass hplace.indexed.named
          | none =>
              cases hd : v.tree.resolveLocal x i with
              | none => exact fold_undeclared (fun _ => hd) hclass hplace.indexed.named
              | some d =>
                  by_cases hplain : v.IsPlain k x d
                  · exact hplace.fold_plain hordered hd hplain fun _ _ _ hplace' => ih hplace' _
                  · exact hnames k name i hplace x d hd hplain _
      | unary op x => simp only [fold, ih hplace x]
      | binary op l r => simp only [fold, ih hplace l, ih hplace r]
      | conditional c yes no => simp only [fold, ih hplace c, ih hplace yes, ih hplace no]
      | cast type x => simp only [fold, ih hplace x]
      | array items => rfl
      | unknown => rfl

end

/-! ### The two ways -/

variable (v) in
/-- The fields of a class have the same values in the tree and in the table. -/
def KeepsValues (c : NodeId) (name : String) : Prop :=
  ∃ owner, v.symbols.class? name = some owner ∧
    List.Forall₂ (fun field f => ∀ i, v.tree.initializer field = some i →
        ∃ e, f.initializer = some e ∧ v.evaluateNode i = v.evaluate e (.inClass name))
      (v.tree.childrenOfKind c .field) owner.fields

/-- What the table keeps for the fields of a class are their initializers. -/
theorem IsIndexed.keepsValues (h : v.IsIndexed c name)
    (hvalues : ∀ field ∈ v.tree.childrenOfKind c .field, ∀ i, v.tree.initializer field = some i →
      v.evaluateNode i = v.evaluate (Expr.ofNode v.tree i) (.inClass name)) :
    v.KeepsValues c name := by
  obtain ⟨known, s, hs, -, hclass⟩ := h.symbol
  obtain ⟨g, hfields, hg⟩ := SymbolTable.qualifyClass_fields known s
  obtain ⟨own, -, rfl⟩ := Option.map_eq_some_iff.mp hs
  refine ⟨_, hclass, ?_⟩
  rw [hfields, List.map_map, List.forall₂_map_right_iff, List.forall₂_same]
  intro field hfield i hi
  refine ⟨Expr.ofNode v.tree i, ?_, hvalues field hfield i hi⟩
  rw [Function.comp_apply, (hg _).2.2, Tree.fieldSymbol, hi]
  rfl

theorem isIndexed_of_find? {classes : List ClassSymbol} {s : ClassSymbol}
    (hsymbols : v.symbols = SymbolTable.ofClasses classes) (hc : v.tree.kind c = .classDecl)
    (hs : v.tree.classSymbol c = some s) (hnamed : s.name ≠ "")
    (hfirst : classes.find? (·.name == s.name) = some s) : v.IsIndexed c s.name := by
  refine ⟨hc, hnamed, fun n => classes.any (·.name == n), s, hs, rfl, ?_⟩
  rw [hsymbols, SymbolTable.class?_ofClasses, hfirst]
  rfl

/-- The initializers of a class, and all that could stand in their place or in
the classes around it, fold alike through the tree and through the table, just
if every name does that is not plain. -/
theorem keepsValues_and_foldsAlike_iff {b : Builder} (hb : b.Made) (htree : v.tree = b.build)
    {units : List Tree} {compiled : List ClassSymbol}
    (hsymbols : v.symbols = SymbolTable.ofUnits units compiled) (hc : v.tree.kind c = .classDecl)
    {s : ClassSymbol} (hs : v.tree.classSymbol c = some s) (hnamed : s.name ≠ "")
    (hfirst : (units.flatMap Tree.classSymbols ++ compiled).find? (·.name == s.name) = some s) :
    (v.KeepsValues c s.name ∧ ∀ k name i, v.IsPlace c k name i → ∀ e, v.FoldsAlike i name e) ↔
      ∀ k name i, v.IsPlace c k name i → ∀ x d, v.tree.resolveLocal x i = some d →
        ¬v.IsPlain k x d → v.FoldsAlike i name (.reference none x) := by
  have hordered : v.tree.Ordered := htree ▸ hb.ordered
  have hindexed := isIndexed_of_find? hsymbols hc hs hnamed hfirst
  constructor
  · intro h k name i hplace x _ _ _
    exact h.2 k name i hplace _
  · intro h
    refine ⟨hindexed.keepsValues fun field hfield i hi => ?_,
      fun k name i hplace => hplace.foldsAlike hordered h⟩
    obtain ⟨hchild, hkind⟩ := List.mem_filter.mp hfield
    have hinitializes : v.tree.Initializes c i :=
      ⟨field, beq_iff_eq.mp hkind, hordered.mem_children.mp hchild, hi⟩
    by_cases hexpression : v.tree.kind i = .classDecl
    · rw [evaluateNode, evaluate, evaluate, ofNode_classDecl hexpression, fold_unknown,
        fold_unknown]
    · have hplace : v.IsPlace c c s.name i :=
        ⟨Tree.self_mem_classesFrom hc, hindexed, hinitializes, hexpression⟩
      exact hplace.foldsAlike hordered h _ maxDepth

/-! ### A constant in nested classes -/

def constant (name : String) (value : Payload) (b : Builder) : Builder :=
  b.within { kind := .field, name := some name, modifiers := { isStatic := true, isFinal := true } }
    (·.leaf value)

/-- Two classes with a constant `X`, and a class in the second one that takes a
constant from one of them. -/
def nested (superclass : Option String) : Builder :=
  Builder.start ⟨"A.java"⟩ .source .javaFile none {}
    |>.within { kind := .classDecl, name := some "Base" }
      (constant "X" { kind := .literal, literal := some (.int 1) })
    |>.within { kind := .classDecl, name := some "Outer" } fun b =>
      (constant "X" { kind := .literal, literal := some (.int 2) } b).within
        { kind := .classDecl, name := some "Inner", superclass }
          (constant "F" { kind := .reference, name := some "X" })

def nestedView (superclass : Option String) : View where
  tree := (nested superclass).build
  symbols := SymbolTable.ofUnits [(nested superclass).build] []

theorem nested_made (superclass : Option String) : (nested superclass).Made := by
  have hconstant : ∀ name value b, Builder.Made b → (constant name value b).Made :=
    fun _ _ _ h => ((h.enter _).leaf _).leave
  refine .leave (.leave (hconstant _ _ _ (.enter (hconstant _ _ _ (.enter ?_ _)) _)))
  exact .leave (hconstant _ _ _ (.enter (.start ..) _))

theorem nestedView_first (superclass : Option String)
    (h : (nested superclass).build.firstClass? name = some k) :
    ∃ s, (nestedView superclass).tree.classSymbol k = some s ∧ s.name = name ∧
      ([(nested superclass).build].flatMap Tree.classSymbols ++ []).find? (·.name == s.name) =
        some s := by
  obtain ⟨s, hs, rfl, hfirst⟩ := Tree.exists_classSymbol_of_firstClass? rfl h
  rw [List.append_nil, List.flatMap_singleton]
  exact ⟨s, hs, rfl, hfirst⟩

theorem nestedView_isIndexed (superclass : Option String) (hname : name ≠ "")
    (h : (nested superclass).build.firstClass? name = some k) :
    (nestedView superclass).IsIndexed k name := by
  obtain ⟨s, hs, rfl, hfirst⟩ := nestedView_first superclass h
  exact isIndexed_of_find? rfl (Tree.of_firstClass? h).1 hs hname hfirst

/-- Without a superclass, all names in the nested class are plain. -/
theorem nestedView_isPlain (hk : k ∈ (nestedView none).tree.classesFrom 7)
    (hi : (nestedView none).tree.Initializes k i)
    (hd : (nestedView none).tree.resolveLocal x i = some d) : (nestedView none).IsPlain k x d := by
  have hordered : (nestedView none).tree.Ordered := (nested_made none).ordered
  have hclasses : (nestedView none).tree.classesFrom 7 = [7, 4] := by decide +kernel
  have hvariables : ∀ d < (nestedView none).tree.size, (nestedView none).tree.kind d ≠ .parameter ∧
      (nestedView none).tree.kind d ≠ .localVariable := by
    decide +kernel
  -- each class, with the fields that it and the classes on the way to it have
  have hfields : ∀ home ∈ [7, 4], ∀ d ∈ (nestedView none).tree.children home,
      ∀ x ∈ (nestedView none).tree.name d, x ≠ "" ∧ ∀ k ∈ [7, 4], ∃ name ∈ ["Outer.Inner", "Outer"],
        (nested none).build.firstClass? name = some k ∧
          ((nestedView none).tree.kind d = .field →
            home ∈ (nestedView none).tree.classesFrom k →
              ((nestedView none).symbols.findField name x).all fun found =>
                (nestedView none).tree.qualifiedClassName home == some found.1.name) := by
    decide +kernel
  have hfield : (nestedView none).tree.kind d = .field := by
    obtain ⟨scope, -, child, hdeclared⟩ := Tree.exists_of_resolveThrough hd
    obtain ⟨hmem, -, hkind⟩ := Tree.of_declaredIn hdeclared
    have hnot := hvariables d (hordered.below_of_mem_children hmem).2
    exact hkind.resolve_right fun h => h.elim hnot.1 hnot.2
  obtain ⟨home, hhome, hnamed, hparent⟩ := hordered.exists_home_of_resolveLocal hi hfield hd
  obtain ⟨hchild, -, hname⟩ := Tree.of_find?_named hnamed
  have hx := hfields home (hclasses ▸ Tree.mem_classesFrom_trans hhome hk) d hchild x hname
  refine ⟨hx.1, hfield, home,
    hordered.enclosingClass_of_parent hparent (Tree.mem_classesFrom.mp hhome).2, ?_⟩
  intro k' hk' hbelow
  obtain ⟨name, hmem, hfirst, hall⟩ := hx.2 k' (hclasses ▸ Tree.mem_classesFrom_trans hk' hk)
  have hname : name ≠ "" := by
    rintro rfl
    simp at hmem
  refine ⟨name, nestedView_isIndexed none hname hfirst, fun owner f hf => ?_⟩
  have hsame := hall hfield hbelow
  rw [hf] at hsame
  exact beq_iff_eq.mp hsame

theorem nestedView_keepsValues :
    (nestedView none).KeepsValues 7 "Outer.Inner" ∧
      ((nestedView none).evaluateNode 9).bind Literal.asInt = some 2 := by
  obtain ⟨s, hs, hname, hfirst⟩ := nestedView_first none
    (by decide +kernel : (nested none).build.firstClass? "Outer.Inner" = some 7)
  have hnamed : s.name ≠ "" := by
    rw [hname]
    decide
  refine ⟨?_, by decide +kernel⟩
  rw [← hname]
  refine ((keepsValues_and_foldsAlike_iff (nested_made none) rfl rfl (by decide +kernel) hs hnamed
    hfirst).mpr fun k name i hplace x d hd hplain => ?_).1
  exact absurd (nestedView_isPlain hplace.around hplace.initializes hd) hplain

/-- With a superclass, the constant comes from there in the table, but still from
the class around it in the tree. -/
theorem nestedView_not_keepsValues :
    (nestedView (some "Base")).IsIndexed 7 "Outer.Inner" ∧
      ¬(nestedView (some "Base")).KeepsValues 7 "Outer.Inner" := by
  have hfields : (nestedView (some "Base")).tree.childrenOfKind 7 .field = [8] := by decide +kernel
  have hinitializer : (nestedView (some "Base")).tree.initializer 8 = some 9 := by decide +kernel
  have htree : ((nestedView (some "Base")).evaluateNode 9).bind Literal.asInt = some 2 := by
    decide +kernel
  have htable : ((nestedView (some "Base")).symbols.class? "Outer.Inner").bind (fun owner =>
      owner.fields.head?.bind fun f => f.initializer.bind fun e =>
        ((nestedView (some "Base")).evaluate e (.inClass "Outer.Inner")).bind Literal.asInt) =
      some 1 := by
    decide +kernel
  refine ⟨nestedView_isIndexed _ (by decide) (by decide +kernel), ?_⟩
  rintro ⟨owner, howner, hvalues⟩
  rw [hfields] at hvalues
  obtain ⟨f, fields, hf, -, howns⟩ := List.forall₂_cons_left_iff.mp hvalues
  obtain ⟨e, he, hvalue⟩ := hf 9 hinitializer
  rw [howner, Option.bind_some, howns, List.head?_cons, Option.bind_some, he, Option.bind_some,
    ← hvalue, htree] at htable
  exact absurd htable (by decide)

end View

end LintEngine
