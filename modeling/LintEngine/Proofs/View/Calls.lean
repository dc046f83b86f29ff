import LintEngine.Proofs.Symbols.Table
import LintEngine.Tree.Builder
import LintEngine.View.Annotations
import Mathlib.Data.List.Basic

/-!
The annotations of a bound call. A call binds to the first method that accepts
its arguments, but the declaration made from it carries the number of the
method's parameters instead, and is looked up by that number again. The two
numbers differ where a variadic method takes fewer or more arguments than it has
parameters, and an overload declared before it may then answer in its place.

Main statement: the declaration answers with the annotations of the bound method
exactly if the first method that accepts as many arguments as that one has
parameters is annotated like it.
-/

namespace LintEngine

namespace MethodSymbol

variable {m first : MethodSymbol}

/-- A method can be called with as many arguments as it has parameters. -/
theorem accepts_arity (m : MethodSymbol) : m.accepts m.arity = true := by
  rw [accepts]
  split
  · exact decide_eq_true (Nat.le_succ _)
  · exact beq_self_eq_true _

def annotationsAt (m : MethodSymbol) (index : Nat) : List Annotation :=
  ((m.parameters[index]?).map (·.annotations)).getD []

theorem map_annotations_of_lt {i : Nat} (h : i < m.arity) :
    (m.parameters[i]?).map (·.annotations) = some (m.annotationsAt i) := by
  rw [annotationsAt, List.getElem?_eq_getElem h]
  rfl

/-- A method with the same annotations, as far as the parameters of the other one
go. -/
structure IsAnnotatedLike (first m : MethodSymbol) : Prop where
  own : first.annotations = m.annotations
  parameters : ∀ i < m.arity, first.annotationsAt i = m.annotationsAt i

theorem IsAnnotatedLike.refl (m : MethodSymbol) : m.IsAnnotatedLike m := ⟨rfl, fun _ _ => rfl⟩

end MethodSymbol

namespace ClassSymbol

variable {c : ClassSymbol} {x : String} {n : Nat} {m : MethodSymbol}

theorem of_method? (h : c.method? x n = some m) :
    m ∈ c.methods ∧ m.name = x ∧ m.accepts n = true := by
  rw [method?] at h
  have hfound := List.find?_some h
  rw [Bool.and_eq_true, beq_iff_eq] at hfound
  exact ⟨List.mem_of_find?_eq_some h, hfound⟩

/-- Some method answers for the number of parameters of a bound one. -/
theorem exists_method?_arity (h : c.method? x n = some m) :
    ∃ first, c.method? x m.arity = some first := by
  obtain ⟨hmem, hname, -⟩ := of_method? h
  refine Option.isSome_iff_exists.mp (List.find?_isSome.mpr ⟨m, hmem, ?_⟩)
  rw [Bool.and_eq_true, beq_iff_eq]
  exact ⟨hname, m.accepts_arity⟩

/-- The bound method answers itself just if no method before it accepts as many
arguments as it has parameters. -/
theorem method?_arity_eq_iff (h : c.method? x n = some m) :
    c.method? x m.arity = some m ↔ ∃ before after, c.methods = before ++ m :: after ∧
      ∀ e ∈ before, ¬(e.name = x ∧ e.accepts m.arity = true) := by
  obtain ⟨-, hname, -⟩ := of_method? h
  rw [method?, List.find?_eq_some_iff_append, Bool.and_eq_true, beq_iff_eq]
  simp only [hname, m.accepts_arity, and_self, true_and, Bool.not_eq_true', Bool.and_eq_true,
    beq_iff_eq, ← Bool.not_eq_true]

end ClassSymbol

namespace View

variable {v : View} {id : NodeId} {m : MethodRef} {s first : MethodSymbol} {c : ClassSymbol}
  {o : String}

variable (v) in
/-- The annotations that a call is checked against are those of the method it is
bound to: the method's own, and for every argument those of the parameter that
receives it. -/
structure KeepsMethod (m : MethodRef) (s : MethodSymbol) : Prop where
  method : m.declaration.map v.declaredAnnotations = some s.annotations
  arguments : ∀ i, (parameterOf m i).map v.declaredAnnotations =
    (s.parameters[min i (s.arity - 1)]?).map (·.annotations)

/-- A call is bound to the first method of a class that accepts its arguments. -/
theorem method?_of_resolveCall (hcall : v.resolveCall id = some m) (howner : m.owner = some o)
    (hs : m.symbol = some s) :
    ∃ c, v.symbols.class? o = some c ∧ c.method? m.name m.arity = some s := by
  rw [resolveCall, bound, Nat.mul_add, callWithin] at hcall
  obtain ⟨name, -, hbound⟩ := Option.bind_eq_some_iff.mp hcall
  obtain rfl := Option.some.inj hbound
  rw [bindMethod] at howner hs ⊢
  split at howner
  · rename_i owner symbol hfound
    obtain ⟨receiver, -, hmethod⟩ := Option.bind_eq_some_iff.mp hfound
    obtain ⟨hclass, hsymbol⟩ := SymbolTable.of_findMethod hmethod
    simp only [hfound] at hs ⊢
    cases howner
    cases hs
    exact ⟨owner, hclass, hsymbol⟩
  · cases howner

section

variable (howner : m.owner = some o) (hs : m.symbol = some s) (hclass : v.symbols.class? o = some c)
  (hfirst : c.method? m.name s.arity = some first)

include howner hs hclass hfirst

/-- The declaration of a call answers with the first method that accepts as many
arguments as the bound one has parameters. -/
theorem declaration_answers : m.declaration.map v.declaredAnnotations = some first.annotations := by
  have hdeclaration : m.declaration = some (.method o m.name s.arity) := by
    rw [MethodRef.declaration, hs, howner]
    rfl
  rw [hdeclaration, Option.map_some, declaredAnnotations,
    SymbolTable.findMethod_of_method? hclass hfirst]
  rfl

theorem parameterOf_answers (i : Nat) :
    (parameterOf m i).map v.declaredAnnotations =
      if s.parameters = [] then none else some (first.annotationsAt (min i (s.arity - 1))) := by
  rw [parameterOf, hs, howner]
  by_cases hnil : s.parameters = []
  · simp [hnil]
  · simp [hnil, declaredAnnotations, SymbolTable.findMethod_of_method? hclass hfirst,
      MethodSymbol.annotationsAt]

theorem keepsMethod_iff_isAnnotatedLike : v.KeepsMethod m s ↔ first.IsAnnotatedLike s := by
  have hmethod := declaration_answers howner hs hclass hfirst
  have hparameter := parameterOf_answers howner hs hclass hfirst
  constructor
  · intro h
    refine ⟨Option.some.inj (hmethod.symm.trans h.method), fun i hi => ?_⟩
    have hlast : min i (s.arity - 1) = i := Nat.min_eq_left (Nat.le_sub_one_of_lt hi)
    have hnil : s.parameters ≠ [] := List.ne_nil_of_length_pos (Nat.zero_lt_of_lt hi)
    have hargument := h.arguments i
    rw [hparameter, if_neg hnil, hlast, MethodSymbol.map_annotations_of_lt hi] at hargument
    exact Option.some.inj hargument
  · intro h
    refine ⟨hmethod.trans (congrArg some h.own), fun i => ?_⟩
    rw [hparameter]
    split
    · rename_i hnil
      rw [hnil]
      rfl
    · rename_i hnil
      -- a surplus argument belongs to the last parameter
      have hlast : min i (s.arity - 1) < s.arity :=
        Nat.lt_of_le_of_lt (Nat.min_le_right ..)
          (Nat.sub_one_lt_of_lt (List.length_pos_iff.mpr hnil))
      rw [MethodSymbol.map_annotations_of_lt hlast, h.parameters _ hlast]

end

/-- A call keeps its method just if the method that answers for it is annotated
like the one it is bound to. They are the same if no overload declared before
accepts as many arguments as the bound method has parameters, and so if the call
passes as many. -/
theorem resolveCall_keepsMethod_iff (hcall : v.resolveCall id = some m) (howner : m.owner = some o)
    (hs : m.symbol = some s) :
    ∃ c first, v.symbols.class? o = some c ∧ c.method? m.name s.arity = some first ∧
      (v.KeepsMethod m s ↔ first.IsAnnotatedLike s) ∧
      (first = s ↔ ∃ before after, c.methods = before ++ s :: after ∧
        ∀ e ∈ before, ¬(e.name = m.name ∧ e.accepts s.arity = true)) ∧
      (m.arity = s.arity → first = s) := by
  obtain ⟨c, hclass, hbound⟩ := method?_of_resolveCall hcall howner hs
  obtain ⟨first, hfirst⟩ := ClassSymbol.exists_method?_arity hbound
  refine ⟨c, first, hclass, hfirst, keepsMethod_iff_isAnnotatedLike howner hs hclass hfirst, ?_, ?_⟩
  · rw [← ClassSymbol.method?_arity_eq_iff hbound, hfirst, Option.some_inj]
  · intro harity
    rw [harity, hfirst] at hbound
    exact Option.some.inj hbound

/-! ### A call with a surplus argument -/

def single (b : Builder) : Builder :=
  b.within { kind := .method, name := some "f", typeName := some "void" }
    (·.leaf { kind := .parameter, name := some "a", typeName := some "int" })

def variadic (b : Builder) : Builder :=
  b.within { kind := .method, name := some "f", typeName := some "void" } fun b =>
    (b.leaf { kind := .annotationUse, name := some "Deprecated" }).leaf
      { kind := .parameter, name := some "a", typeName := some "int..." }

def surplusCall (methods : Builder → Builder) : Tree :=
  (Builder.start ⟨"A.java"⟩ .source .javaFile none {}).within
    { kind := .classDecl, name := some "A" } (fun b =>
      (methods b).within { kind := .method, name := some "g", typeName := some "void" }
        (·.within { kind := .call, name := some "f" } fun b =>
          (b.leaf { kind := .literal, literal := some (.int 1) }).leaf
            { kind := .literal, literal := some (.int 2) }))
    |>.build

def surplusView (methods : Builder → Builder) : View where
  tree := surplusCall methods
  symbols := SymbolTable.ofUnits [surplusCall methods] []

/-- The call is bound to the variadic method and keeps it where that one is
declared first. -/
theorem surplusView_keepsMethod :
    ∃ m s, (surplusView (single ∘ variadic)).resolveCall 8 = some m ∧ m.symbol = some s ∧
      m.arity = 2 ∧ s.arity = 1 ∧ s.annotations.map (·.name) = ["java.lang.Deprecated"] ∧
      (surplusView (single ∘ variadic)).KeepsMethod m s := by
  obtain ⟨m, hm⟩ := Option.isSome_iff_exists.mp
    (by decide +kernel : ((surplusView (single ∘ variadic)).resolveCall 8).isSome)
  have hcall : ((surplusView (single ∘ variadic)).resolveCall 8).map
      (fun m => (m.owner, m.name, m.arity)) = some (some "A", "f", 2) := by
    decide +kernel
  have hsymbol : (((surplusView (single ∘ variadic)).resolveCall 8).bind (·.symbol)).map
      (fun s => (s.arity, s.annotations.map (·.name))) = some (1, ["java.lang.Deprecated"]) := by
    decide +kernel
  -- the first method of the class accepts both numbers of arguments
  have hhead : (((surplusView (single ∘ variadic)).symbols.class? "A").bind
      (·.methods.head?)).map (fun e => (e.name, e.accepts 1, e.accepts 2)) =
        some ("f", true, true) := by
    decide +kernel
  rw [hm] at hcall hsymbol
  simp only [Option.map_some, Option.some.injEq, Prod.mk.injEq] at hcall
  obtain ⟨howner, hname, harity⟩ := hcall
  obtain ⟨s, hs, hinfo⟩ := Option.map_eq_some_iff.mp hsymbol
  simp only [Prod.mk.injEq] at hinfo
  refine ⟨m, s, hm, hs, harity, hinfo.1, hinfo.2, ?_⟩
  obtain ⟨c, hclass, hbound⟩ := method?_of_resolveCall hm howner hs
  obtain ⟨c', first, hclass', -, hkeeps, hsame, -⟩ := resolveCall_keepsMethod_iff hm howner hs
  obtain rfl := Option.some.inj (hclass.symm.trans hclass')
  have hfirst : first = s := by
    rw [hclass, Option.bind_some] at hhead
    obtain ⟨e, hmethods, hinfo⟩ := Option.map_eq_some_iff.mp hhead
    simp only [Prod.mk.injEq] at hinfo
    obtain ⟨after, hmethods⟩ := List.head?_eq_some_iff.mp hmethods
    rw [ClassSymbol.method?, hmethods, harity, hname, List.find?_cons, hinfo.1, hinfo.2.2] at hbound
    obtain rfl := Option.some.inj hbound
    exact hsame.mpr ⟨[], after, hmethods, fun _ h => absurd h List.not_mem_nil⟩
  exact hkeeps.mpr (hfirst ▸ .refl _)

/-- Where the method for one argument is declared first, the call is still bound
to the variadic one, but the other one answers, and the deprecation is lost. -/
theorem surplusView_not_keepsMethod :
    ∃ m s, (surplusView (variadic ∘ single)).resolveCall 8 = some m ∧ m.symbol = some s ∧
      s.annotations.map (·.name) = ["java.lang.Deprecated"] ∧
      ¬(surplusView (variadic ∘ single)).KeepsMethod m s := by
  obtain ⟨m, hm⟩ := Option.isSome_iff_exists.mp
    (by decide +kernel : ((surplusView (variadic ∘ single)).resolveCall 8).isSome)
  have hsymbol : (((surplusView (variadic ∘ single)).resolveCall 8).bind (·.symbol)).map
      (fun s => s.annotations.map (·.name)) = some ["java.lang.Deprecated"] := by
    decide +kernel
  have hanswer : (((surplusView (variadic ∘ single)).resolveCall 8).bind fun m =>
      m.declaration.map (surplusView (variadic ∘ single)).declaredAnnotations).map List.length =
        some 0 := by
    decide +kernel
  rw [hm, Option.bind_some] at hsymbol hanswer
  obtain ⟨s, hs, hnames⟩ := Option.map_eq_some_iff.mp hsymbol
  refine ⟨m, s, hm, hs, hnames, fun hkeeps => ?_⟩
  rw [hkeeps.method, Option.map_some, Option.some_inj] at hanswer
  rw [List.length_eq_zero_iff.mp hanswer] at hnames
  cases hnames

end View

end LintEngine
