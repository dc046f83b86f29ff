import LintEngine.Proofs.Symbols.Table
import LintEngine.Proofs.Symbols.WrittenTypes
import LintEngine.Proofs.Tree.Scopes
import LintEngine.Proofs.View.Calls
import LintEngine.View.Annotations

/-!
The annotations of a declaration, read in two ways: from its node in the unit,
or from the symbol that the table keeps of it.

The table qualifies the names of annotations when it is built, once for a class
and with what the class knows; on a node they are qualified when they are asked
for, with the imports of the unit and the class around the annotation. For
dotted names both come to the same. So a declaration has the same annotations
both ways, if the table answers for it with its own symbol: the class must be
the first of its name, a field the first of its name in the class, and a method
the first of its name that accepts as many arguments as it has parameters.
-/

namespace LintEngine

/-! ### Symbols with qualified names -/

namespace SymbolTable

theorem isKnown_ofClasses (classes : List ClassSymbol) (name : String) :
    (ofClasses classes).isKnown name = classes.any (·.name == name) := by
  have hclass : ((ofClasses classes).class? name).isSome = classes.any (·.name == name) := by
    rw [class?_ofClasses, Option.isSome_map, List.isSome_find?]
  rw [← hclass, isKnown, class?, List.isSome_find?]

section

variable (known : String → Bool) (c : ClassSymbol)

/-- A type name in a class, qualified; one that cannot be qualified is only
stripped. -/
def qualifyName (name : String) : String :=
  (TypeName.qualify known c.imports (some c.name) name).getD (TypeName.strip name)

def qualifyWritten (a : Annotation) : Annotation := { a with name := qualifyName known c a.name }

def qualifyField (f : FieldSymbol) : FieldSymbol :=
  { f with
    typeName := f.typeName.map (qualifyName known c)
    annotations := f.annotations.map (qualifyWritten known c) }

def qualifyParameter (p : ParameterSymbol) : ParameterSymbol :=
  { p with
    typeName := p.typeName.map fun name =>
      if Text.endsWith "..." name then qualifyName known c name ++ "..."
      else qualifyName known c name
    annotations := p.annotations.map (qualifyWritten known c) }

def qualifyMethod (m : MethodSymbol) : MethodSymbol :=
  { m with
    returnType := m.returnType.map (qualifyName known c)
    annotations := m.annotations.map (qualifyWritten known c)
    parameters := m.parameters.map (qualifyParameter known c) }

/-- Qualifying a class qualifies each of its parts on its own. -/
theorem qualifyClass_eq :
    qualifyClass known c =
      { c with
        superclass := c.superclass.map (qualifyName known c)
        interfaces := c.interfaces.map (qualifyName known c)
        annotations := c.annotations.map (qualifyWritten known c)
        fields := c.fields.map (qualifyField known c)
        methods := c.methods.map (qualifyMethod known c) } := rfl

end

end SymbolTable

theorem find?_of_getElem? {α : Type} {l : List α} {p : α → Bool} {i : Nat} {a : α}
    (ha : l[i]? = some a) (hp : p a = true) (hbefore : ∀ b ∈ l.take i, p b = false) :
    l.find? p = some a := by
  obtain ⟨hi, rfl⟩ := List.getElem?_eq_some_iff.mp ha
  refine List.find?_eq_some_iff_append.mpr ⟨hp, l.take i, l.drop (i + 1), ?_, fun b hb => ?_⟩
  · rw [← List.drop_eq_getElem_cons hi, List.take_append_drop]
  · rw [hbefore b hb, Bool.not_false]

/-! ### Two ways to read annotations -/

namespace View

section

variable (v : View)

def writtenOn (n : NodeId) : List Annotation :=
  (v.annotationsOn n).map fun a => { a with node := none }

def AgreesAt (n : NodeId) : Prop :=
  ∃ d, v.resolve n = some d ∧ v.writtenOn n = v.declaredAnnotations d

def HasDottedAnnotations : Prop :=
  ∀ a name, v.tree.kind a = .annotationUse → v.tree.name a = some name →
    TypeName.isDotted name = true

end

variable {v : View} {c n a : NodeId} {x : String} {s owner : ClassSymbol}

theorem classNameOf_of_parent (hordered : v.tree.Ordered) (ha : v.tree.parent a = some n)
    (hkind : v.tree.kind a ≠ .classDecl) : v.classNameOf a = v.classNameOf n := by
  rw [classNameOf, if_neg (by simpa using hkind), classNameOf]
  by_cases hn : v.tree.kind n = .classDecl
  · rw [hordered.enclosingClass_of_parent ha hn, if_pos (beq_iff_eq.mpr hn)]
  · rw [if_neg (by simpa using hn), Tree.enclosingClass, Tree.enclosing,
      hordered.ancestors_of_parent ha, Tree.selfAndAncestors,
      List.find?_cons_of_neg (by simpa using hn)]
    rfl

theorem classNameOf_of_mem (hordered : v.tree.Ordered) {kind : NodeKind}
    (ha : a ∈ v.tree.childrenOfKind n kind) (hkind : kind ≠ .classDecl) :
    v.classNameOf a = v.classNameOf n := by
  obtain ⟨hchild, ha⟩ := List.mem_filter.mp ha
  refine classNameOf_of_parent hordered (hordered.mem_children.mp hchild) ?_
  rwa [beq_iff_eq.mp ha]

/-- The class that the table keeps for a class of the unit. -/
structure IsKept (v : View) (c : NodeId) (s owner : ClassSymbol) : Prop where
  kind : v.tree.kind c = .classDecl
  symbol : v.tree.classSymbol c = some s
  known : v.symbols.class? s.name = some owner
  qualified : owner = SymbolTable.qualifyClass v.symbols.isKnown s

theorem exists_isKept {classes : List ClassSymbol}
    (hsymbols : v.symbols = SymbolTable.ofClasses classes) (hc : v.tree.kind c = .classDecl)
    (hs : v.tree.classSymbol c = some s) (hfirst : classes.find? (·.name == s.name) = some s) :
    ∃ owner, v.IsKept c s owner := by
  refine ⟨_, hc, hs, ?_, rfl⟩
  have hknown : v.symbols.isKnown = fun name => classes.any (·.name == name) := by
    rw [hsymbols]
    exact funext (SymbolTable.isKnown_ofClasses classes)
  rw [hknown, hsymbols, SymbolTable.class?_ofClasses, hfirst]
  rfl

namespace IsKept

variable (h : v.IsKept c s owner)

include h

theorem classNameOf : v.classNameOf c = some s.name := by
  obtain ⟨name, hname, rfl⟩ := Option.map_eq_some_iff.mp h.symbol
  rw [View.classNameOf, beq_iff_eq.mpr h.kind, if_pos rfl, Option.bind_some, hname]

variable (hordered : v.tree.Ordered) (hdotted : v.HasDottedAnnotations)

include hordered hdotted

/-- On a node that sees the class, names are qualified as in the class. -/
theorem writtenOn_eq (hn : v.classNameOf n = some s.name) :
    v.writtenOn n = (v.tree.symbolAnnotations s.name n).map
      (SymbolTable.qualifyWritten v.symbols.isKnown s) := by
  have himports : s.imports = v.tree.imports := by
    obtain ⟨name, -, rfl⟩ := Option.map_eq_some_iff.mp h.symbol
    rfl
  rw [writtenOn, annotationsOn, Tree.symbolAnnotations, List.map_map, List.map_map, hn]
  refine List.map_congr_left fun a ha => ?_
  have hclass : v.classNameOf a = some s.name :=
    (classNameOf_of_mem hordered ha (by decide)).trans hn
  have hstrip : TypeName.strip ((v.tree.name a).getD "") = (v.tree.name a).getD "" := by
    cases hname : v.tree.name a with
    | none => decide +kernel
    | some name =>
        have hkind : v.tree.kind a = .annotationUse := beq_iff_eq.mp (List.mem_filter.mp ha).2
        exact TypeName.strip_of_isDotted (hdotted a name hkind hname)
  simp only [Function.comp_apply, SymbolTable.qualifyWritten, SymbolTable.qualifyName,
    Annotation.ofNode, qualifyType, SymbolTable.qualify, hclass, himports, hstrip]

theorem agreesAt_class : v.AgreesAt c := by
  obtain ⟨name, hname, hs⟩ := Option.map_eq_some_iff.mp h.symbol
  have hresolve : v.resolve c = some (.classNamed s.name) := by
    rw [resolve, bound, Nat.mul_add, resolveWithin, h.kind, hname, ← hs]
    rfl
  refine ⟨_, hresolve, ?_⟩
  rw [h.writtenOn_eq hordered hdotted h.classNameOf, declaredAnnotations, h.known, h.qualified,
    ← hs]
  rfl

/-- The table answers for a field with its own symbol, if no field before it has
its name. -/
theorem agreesAt_field {i : Nat} {f : NodeId} (hf : (v.tree.childrenOfKind c .field)[i]? = some f)
    (hx : v.tree.name f = some x) (hfirst : ∀ e ∈ owner.fields.take i, e.name ≠ x) :
    v.AgreesAt f := by
  have hmem := List.mem_of_getElem? hf
  have hkind : v.tree.kind f = .field := beq_iff_eq.mp (List.mem_filter.mp hmem).2
  have hclass : v.classNameOf f = some s.name :=
    (classNameOf_of_mem hordered hmem (by decide)).trans h.classNameOf
  have hresolve : v.resolve f = some (.field s.name x) := by
    rw [resolve, bound, Nat.mul_add, resolveWithin, hkind, hclass, hx]
    rfl
  have hsymbol : owner.fields[i]? = some (SymbolTable.qualifyField v.symbols.isKnown s
      (v.tree.fieldSymbol s.name f)) := by
    obtain ⟨name, -, rfl⟩ := Option.map_eq_some_iff.mp h.symbol
    rw [h.qualified, SymbolTable.qualifyClass_eq]
    simp [hf]
  have hname : (v.tree.fieldSymbol s.name f).name = x := congrArg (Option.getD · "") hx
  have hfield : owner.field? x = some _ :=
    find?_of_getElem? hsymbol (beq_iff_eq.mpr hname) fun e he => beq_false_of_ne (hfirst e he)
  refine ⟨_, hresolve, ?_⟩
  rw [h.writtenOn_eq hordered hdotted hclass, declaredAnnotations,
    SymbolTable.findField_of_field? h.known hfield]
  rfl

/-- The table answers for a method with its own symbol, if no method before it
has its name and accepts as many arguments as it has parameters. -/
theorem agreesAt_method {i : Nat} {m : NodeId}
    (hm : (v.tree.childrenOfKind c .method)[i]? = some m) (hx : v.tree.name m = some x)
    (hfirst : ∀ e ∈ owner.methods.take i,
      ¬(e.name = x ∧ e.accepts (v.tree.parameters m).length = true)) :
    v.AgreesAt m ∧ ∀ j p, (v.tree.parameters m)[j]? = some p →
      v.writtenOn p =
        v.declaredAnnotations (.parameter s.name x (v.tree.parameters m).length j) := by
  have hmem := List.mem_of_getElem? hm
  have hkind : v.tree.kind m = .method := beq_iff_eq.mp (List.mem_filter.mp hmem).2
  have hclass : v.classNameOf m = some s.name :=
    (classNameOf_of_mem hordered hmem (by decide)).trans h.classNameOf
  have hresolve : v.resolve m = some (.method s.name x (v.tree.parameters m).length) := by
    rw [resolve, bound, Nat.mul_add, resolveWithin, hkind, hclass, hx]
    rfl
  have hsymbol : owner.methods[i]? = some (SymbolTable.qualifyMethod v.symbols.isKnown s
      (v.tree.methodSymbol s.name m)) := by
    obtain ⟨name, -, rfl⟩ := Option.map_eq_some_iff.mp h.symbol
    rw [h.qualified, SymbolTable.qualifyClass_eq]
    simp [hm]
  have hname : (v.tree.methodSymbol s.name m).name = x := congrArg (Option.getD · "") hx
  have harity : (SymbolTable.qualifyMethod v.symbols.isKnown s
      (v.tree.methodSymbol s.name m)).arity = (v.tree.parameters m).length := by
    simp [SymbolTable.qualifyMethod, MethodSymbol.arity, Tree.methodSymbol]
  have hmethod : owner.method? x (v.tree.parameters m).length =
      some (SymbolTable.qualifyMethod v.symbols.isKnown s (v.tree.methodSymbol s.name m)) := by
    refine find?_of_getElem? hsymbol ?_ fun e he => ?_
    · rw [← harity, MethodSymbol.accepts_arity, Bool.and_true]
      exact beq_iff_eq.mpr hname
    · have hnot := hfirst e he
      rwa [← beq_iff_eq, ← Bool.and_eq_true, Bool.not_eq_true] at hnot
  refine ⟨⟨_, hresolve, ?_⟩, fun j p hp => ?_⟩
  · rw [h.writtenOn_eq hordered hdotted hclass, declaredAnnotations,
      SymbolTable.findMethod_of_method? h.known hmethod]
    rfl
  · have hseen : v.classNameOf p = some s.name :=
      (classNameOf_of_mem hordered (List.mem_of_getElem? hp) (by decide)).trans hclass
    rw [h.writtenOn_eq hordered hdotted hseen, declaredAnnotations,
      SymbolTable.findMethod_of_method? h.known hmethod]
    simp [SymbolTable.qualifyMethod, Tree.methodSymbol, hp, SymbolTable.qualifyParameter]

end IsKept

/-- A class that is the first of its name has the same annotations on its node and
in the table, and so have its fields and methods with their parameters, as far as
none before them answers in their place. -/
theorem declarations_agree {b : Builder} (hb : b.Made) (htree : v.tree = b.build)
    {units : List Tree} {compiled : List ClassSymbol}
    (hsymbols : v.symbols = SymbolTable.ofUnits units compiled)
    (hdotted : v.HasDottedAnnotations) (hc : v.tree.kind c = .classDecl)
    (hs : v.tree.classSymbol c = some s)
    (hfirst : (units.flatMap Tree.classSymbols ++ compiled).find? (·.name == s.name) = some s) :
    v.AgreesAt c ∧
    ∃ owner, v.symbols.class? s.name = some owner ∧
      (∀ i f x, (v.tree.childrenOfKind c .field)[i]? = some f → v.tree.name f = some x →
        (∀ e ∈ owner.fields.take i, e.name ≠ x) → v.AgreesAt f) ∧
      ∀ i m x, (v.tree.childrenOfKind c .method)[i]? = some m → v.tree.name m = some x →
        (∀ e ∈ owner.methods.take i,
          ¬(e.name = x ∧ e.accepts (v.tree.parameters m).length = true)) →
        v.AgreesAt m ∧ ∀ j p, (v.tree.parameters m)[j]? = some p →
          v.writtenOn p =
            v.declaredAnnotations (.parameter s.name x (v.tree.parameters m).length j) := by
  have hordered : v.tree.Ordered := htree ▸ hb.ordered
  obtain ⟨owner, h⟩ := exists_isKept hsymbols hc hs hfirst
  refine ⟨h.agreesAt_class hordered hdotted, owner, h.known, ?_, ?_⟩
  · intro i f x
    exact h.agreesAt_field hordered hdotted
  · intro i m x
    exact h.agreesAt_method hordered hdotted

/-! ### A nested class with annotations from three places -/

def annotate (name : String) (value : Payload) (b : Builder) : Builder :=
  b.within { kind := .annotationUse, name := some name }
    (·.within { kind := .annotationArgument } (·.leaf value))

/-- A class in a class, with annotations that are declared next to it, imported
and built in, on the class, a field, a method and a parameter. -/
def annotated : Builder :=
  Builder.start ⟨"A.java"⟩ .source .javaFile none { package := "p", single := ["q.Range"] }
    |>.within { kind := .classDecl, name := some "Outer" } fun b =>
      (b.leaf { kind := .classDecl, name := some "Mode", classKind := some .annotationType }).within
        { kind := .classDecl, name := some "Inner" } fun b =>
          annotate "Mode" { kind := .literal, literal := some (.int 1) } b
            |>.within { kind := .field, name := some "F" }
              (·.leaf { kind := .annotationUse, name := some "Deprecated" })
            |>.within { kind := .method, name := some "m" } fun b =>
              annotate "Range" { kind := .literal, literal := some (.int 2) } b
                |>.within { kind := .parameter, name := some "a" }
                  (annotate "Outer.Mode" { kind := .reference, name := some "F" })

def annotatedView : View where
  tree := annotated.build
  symbols := SymbolTable.ofUnits [annotated.build] []

theorem annotated_made : annotated.Made := by
  have hwithin : ∀ {b : Builder} {p : Payload} {inner : Builder → Builder}, b.Made →
      (∀ b : Builder, b.Made → (inner b).Made) → (b.within p inner).Made :=
    fun hb hinner => (hinner _ (hb.enter _)).leave
  have hwith : ∀ name value b, Builder.Made b → (annotate name value b).Made :=
    fun _ _ _ hb => hwithin hb fun _ hb => hwithin hb fun _ hb => hb.leaf _
  refine hwithin (.start ..) fun _ hb => hwithin (hb.leaf _) fun _ hb => ?_
  refine hwithin (hwithin (hwith _ _ _ hb) fun _ hb => hb.leaf _) fun _ hb => ?_
  exact hwithin (hwith _ _ _ hb) (hwith _ _)

theorem annotatedView_hasDottedAnnotations : annotatedView.HasDottedAnnotations := by
  have hnames : ∀ a < annotatedView.tree.size,
      annotatedView.tree.kind a = .annotationUse →
        (annotatedView.tree.name a).all TypeName.isDotted = true := by
    decide +kernel
  intro a name hkind hname
  have ha : a < annotatedView.tree.size := Tree.lt_size_of_kind (by rw [hkind]; decide)
  have hall := hnames a ha hkind
  rwa [hname] at hall

/-- The class, its field, its method and its parameter have their annotations both
ways, each under its full name. -/
theorem annotatedView_agrees :
    annotatedView.AgreesAt 3 ∧ annotatedView.AgreesAt 7 ∧ annotatedView.AgreesAt 9 ∧
      annotatedView.writtenOn 13 =
        annotatedView.declaredAnnotations (.parameter "p.Outer.Inner" "m" 1 0) ∧
      [3, 7, 9, 13].map (fun n => (annotatedView.writtenOn n).map (·.name)) =
        [["p.Outer.Mode"], ["java.lang.Deprecated"], ["q.Range"], ["p.Outer.Mode"]] := by
  obtain ⟨s, hs, hname, hfirst⟩ := Tree.exists_classSymbol_of_firstClass?
    (t := annotatedView.tree) rfl
    (by decide +kernel : annotatedView.tree.firstClass? "p.Outer.Inner" = some 3)
  have hsymbols : annotatedView.symbols = SymbolTable.ofUnits [annotated.build] [] := rfl
  have hkept : ([annotated.build].flatMap Tree.classSymbols ++ []).find? (·.name == s.name) =
      some s := by
    rw [hname, List.append_nil, List.flatMap_singleton]
    exact hfirst
  obtain ⟨hclass, owner, -, hfields, hmethods⟩ := declarations_agree annotated_made rfl hsymbols
    annotatedView_hasDottedAnnotations (by decide +kernel) hs hkept
  obtain ⟨hmethod, hparameters⟩ := hmethods 0 9 "m" (by decide +kernel) (by decide +kernel)
    fun _ he => absurd he List.not_mem_nil
  have hfield := hfields 0 7 "F" (by decide +kernel) (by decide +kernel)
    fun _ he => absurd he List.not_mem_nil
  have hparameter := hparameters 0 13 (by decide +kernel)
  rw [hname, (by decide +kernel : (annotatedView.tree.parameters 9).length = 1)] at hparameter
  exact ⟨hclass, hfield, hmethod, hparameter, by decide +kernel⟩

end View

end LintEngine
