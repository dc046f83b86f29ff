import LintEngine.Detector.Schedule
import Mathlib.Data.List.Basic

/-!
Uses of annotated elements.

Entering a node can bring uses of annotated elements with it: the call of an
annotated method, arguments for annotated parameters, and so on. Which uses
these are is a matter of the view alone. The table only says who is told of
them, and if nobody asked for an annotation then nobody is told, so that the
schedule may as well not look for them.
-/

namespace LintEngine

namespace View

variable (v : View)

def usesOf (annotations : List Annotation) (kind : UsageKind) (node : NodeId)
    (method : Option MethodRef) : List Usage :=
  annotations.map fun ann => { ann, kind, node, method }

def argumentUses (node : NodeId) (m : MethodRef) : List Usage :=
  (v.tree.arguments node).zipIdx.flatMap fun (argument, i) =>
    usesOf (v.parameterAnnotations m i) (.argument i) argument (some m)

def createdClass? (n : NodeId) : Option String :=
  (v.tree.typeName n).map fun written => (v.qualifyType written n).getD written

def callUses (n : NodeId) : List Usage :=
  match v.resolveCall n with
  | some m =>
    if m.symbol.isSome then
      usesOf (v.methodAnnotations m) .call n (some m) ++ v.argumentUses n m
    else []
  | none => []

def creationUses (n : NodeId) : List Usage :=
  match (v.createdClass? n).bind ((⟨v, {}⟩ : Walk).constructor? n) with
  | some m => v.argumentUses n m
  | none => []

def definitionUses (n : NodeId) : List Usage :=
  let written := Annotation.ofNode v.tree n (v.classNameOf n)
  usesOf [{ written with name := (v.qualifyType written.name n).getD written.name }]
    .definition n none

def initializerUses (n : NodeId) : List Usage :=
  match v.tree.initializer n with
  | some value => usesOf (v.nodeAnnotations n) .initializer value none
  | none => []

/-- The uses that entering a node brings with it. -/
def uses (n : NodeId) : List Usage :=
  match v.tree.kind n with
  | .call => v.callUses n
  | .new => v.creationUses n
  | .annotationUse => v.definitionUses n
  | .field | .localVariable => v.initializerUses n
  | _ => []

theorem nodeAnnotations_of_isEmpty {n : NodeId} (h : (v.tree.annotations n).isEmpty = true) :
    v.nodeAnnotations n = [] := by
  have hnil : v.tree.annotations n = [] := List.isEmpty_iff.mp h
  have hon : v.annotationsOn n = [] := by simp [annotationsOn, hnil]
  rw [nodeAnnotations, hon]
  rfl

end View

theorem DispatchTable.onAnnotation_of_not_hasNamed {t : DispatchTable}
    (h : t.hasNamed .annotationUse = false) (name : String) : t.onAnnotation name = [] := by
  have hkind : ∀ e ∈ t.named, (e.1.1 == NodeKind.annotationUse) = false := by
    intro e he
    exact Bool.eq_false_iff.mpr (List.any_eq_false.mp h e he)
  have hexact : t.onName .annotationUse name = [] := by
    have hnone : t.named.lookup (.annotationUse, name) = none := by
      refine List.lookup_eq_none_iff.mpr fun e he => ?_
      have hne : e.1.1 ≠ .annotationUse := by simpa using hkind e he
      simp only [bne_iff_ne]
      intro heq
      exact hne (congrArg Prod.fst heq).symm
    rw [onName, hnone]
    rfl
  have hloose : (t.named.filter fun e =>
      e.1.1 == .annotationUse && Text.lastField '.' e.1.2 == name) = [] := by
    refine List.filter_eq_nil_iff.mpr fun e he => ?_
    rw [hkind e he]
    simp
  rw [DispatchTable.onAnnotation]
  simp only [hexact, hloose, List.flatMap_nil, List.mergeSort_nil]
  split <;> rfl

namespace Walk

def useSteps (t : DispatchTable) (uses : List Usage) : List Step :=
  uses.flatMap fun u => deliverAll (t.onAnnotation u.ann.name) (.usage u)

theorem useSteps_append (t : DispatchTable) (us us' : List Usage) :
    useSteps t (us ++ us') = useSteps t us ++ useSteps t us' :=
  List.flatMap_append

variable (w : Walk)

theorem usageSteps_eq (annotations : List Annotation) (kind : UsageKind) (node : NodeId)
    (method : Option MethodRef) :
    w.usageSteps annotations kind node method =
      useSteps w.table (View.usesOf annotations kind node method) := by
  rw [usageSteps, useSteps, View.usesOf, List.flatMap_map]

theorem argumentSteps_eq (node : NodeId) (m : MethodRef) :
    w.argumentSteps node m = useSteps w.table (w.view.argumentUses node m) := by
  rw [argumentSteps, useSteps, View.argumentUses, List.flatMap_assoc]
  refine List.flatMap_congr fun ⟨argument, i⟩ _ => ?_
  exact w.usageSteps_eq _ _ _ _

theorem useSteps_of_not_wants {w : Walk} (h : w.wantsAnnotations = false) (us : List Usage) :
    useSteps w.table us = [] := by
  refine List.flatMap_eq_nil_iff.mpr fun u _ => ?_
  rw [DispatchTable.onAnnotation_of_not_hasNamed h]
  rfl

theorem definitionSteps_eq (n : NodeId) :
    w.definitionSteps n = useSteps w.table (w.view.definitionUses n) := by
  rw [definitionSteps]
  cases hwants : w.wantsAnnotations with
  | false =>
      rw [useSteps_of_not_wants hwants]
      rfl
  | true => exact w.usageSteps_eq _ _ _ _

theorem variableSteps_eq (n : NodeId) :
    w.variableSteps n = useSteps w.table (w.view.initializerUses n) := by
  rw [variableSteps, View.initializerUses]
  cases w.view.tree.initializer n with
  | none => rfl
  | some value =>
      simp only
      rw [← usageSteps_eq]
      cases hwants : w.wantsAnnotations with
      | false =>
          rw [usageSteps_eq, useSteps_of_not_wants hwants]
          rfl
      | true =>
          cases hempty : (w.view.tree.annotations n).isEmpty with
          | false => rfl
          | true =>
              rw [View.nodeAnnotations_of_isEmpty _ hempty]
              rfl

end Walk

end LintEngine
