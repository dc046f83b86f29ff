import LintEngine.Proofs.View.Precedence
import LintEngine.Proofs.Detector.Dispatch

/-!
Leaving annotations out before anybody is told of them.

A view can be restricted to the annotations that some detector asked for. What
it then answers is shorter: an annotation that nobody asked for is dropped,
unless it carries one that somebody did ask for. Nothing is lost by this. The
names that are kept are a matter of the name alone, so keeping the first of
every name and keeping the relevant names can be done in either order, and a
name that the table knows is relevant. Hence the same detectors are told of
the same annotations, and the schedule of a unit is the same.
-/

namespace LintEngine

open Registration

namespace View

def restricted (v : View) (names : List String) : View := { v with relevant := some names }

def unrestricted (v : View) : View := { v with relevant := none }

def isAmong (names : List String) (name : String) : Bool :=
  names.contains name ||
    (!name.toList.contains '.' && names.any fun r => Text.lastField '.' r == name)

def isKept (names : List String) (a : Annotation) : Bool := isAmong names a.name

variable (v : View) (names : List String)

@[simp] theorem isRelevant_unrestricted (name : String) :
    v.unrestricted.isRelevant name = true := rfl

/-! ### Relevant names -/

def carried (a : Annotation) : List Annotation :=
  if v.isMerged a.name then v.symbols.metaAnnotations a.name else []

theorem expand_unrestricted (a : Annotation) : v.unrestricted.expand a = a :: v.carried a := by
  simp only [expand, isRelevant_unrestricted, List.filter_true, Bool.true_or, if_true]
  rfl

theorem expand_restricted (a : Annotation) :
    (v.restricted names).expand a =
      if isKept names a || !((v.carried a).filter (isKept names)).isEmpty then
        a :: (v.carried a).filter (isKept names)
      else [] := rfl

theorem filter_expand (a : Annotation) :
    ((v.restricted names).expand a).filter (isKept names) =
      (v.unrestricted.expand a).filter (isKept names) := by
  have hself : ((v.carried a).filter (isKept names)).filter (isKept names) =
      (v.carried a).filter (isKept names) := by
    simp [List.filter_filter]
  rw [expand_restricted, expand_unrestricted]
  by_cases ha : isKept names a = true
  · rw [ha, Bool.true_or, if_pos rfl, List.filter_cons_of_pos ha, List.filter_cons_of_pos ha, hself]
  · -- `a` itself is irrelevant, and may only stay for what it carries
    rw [Bool.eq_false_iff.mpr ha, Bool.false_or, List.filter_cons_of_neg ha]
    split
    · rw [List.filter_cons_of_neg ha, hself]
    · rename_i hnone
      exact (List.isEmpty_iff.mp (by simpa using hnone)).symm

/-- A restricted view shows the relevant annotations that an unrestricted one
shows. -/
theorem filter_mergeAndFilter (declared : List Annotation) :
    ((v.restricted names).mergeAndFilter declared).filter (isKept names) =
      (v.unrestricted.mergeAndFilter declared).filter (isKept names) := by
  have hp : ∀ a b : Annotation, a.name = b.name → isKept names a = isKept names b := by
    intro a b h
    rw [isKept, isKept, h]
  have hexpand : (declared.flatMap (v.restricted names).expand).filter (isKept names) =
      (declared.flatMap v.unrestricted.expand).filter (isKept names) := by
    rw [List.filter_flatMap, List.filter_flatMap]
    exact List.flatMap_congr fun a _ => filter_expand v names a
  rw [mergeAndFilter, mergeAndFilter, filter_foldl_addNew hp, filter_foldl_addNew hp, hexpand]

end View

namespace DispatchTable

def dispatched (t : DispatchTable) (annotations : List Annotation) : List (Nat × Annotation) :=
  annotations.flatMap fun a => (t.onAnnotation a.name).map (·, a)

/-- Annotations that nobody is told of can be left out. -/
theorem dispatched_filter {t : DispatchTable} {p : Annotation → Bool}
    (h : ∀ a, p a = false → t.onAnnotation a.name = []) (annotations : List Annotation) :
    t.dispatched (annotations.filter p) = t.dispatched annotations := by
  have hcons : ∀ a as, t.dispatched (a :: as) =
      (t.onAnnotation a.name).map (·, a) ++ t.dispatched as := fun _ _ => List.flatMap_cons
  induction annotations with
  | nil => rfl
  | cons a annotations ih =>
      by_cases ha : p a = true
      · rw [List.filter_cons_of_pos ha, hcons, hcons, ih]
      · rw [List.filter_cons_of_neg ha, hcons, ih, h a (Bool.eq_false_iff.mpr ha), List.map_nil,
          List.nil_append]

/-- Lists of annotations of which the same detectors are told give the same
steps. -/
theorem useSteps_usesOf_congr {t : DispatchTable} {as as' : List Annotation}
    (h : t.dispatched as = t.dispatched as') (kind : UsageKind) (node : NodeId)
    (method : Option MethodRef) :
    Walk.useSteps t (View.usesOf as kind node method) =
      Walk.useSteps t (View.usesOf as' kind node method) := by
  have hsteps : ∀ as : List Annotation, Walk.useSteps t (View.usesOf as kind node method) =
      (t.dispatched as).map fun (d, ann) => .deliver d (.usage { ann, kind, node, method }) := by
    intro as
    rw [Walk.useSteps, View.usesOf, List.flatMap_map, dispatched, List.map_flatMap]
    refine List.flatMap_congr fun a _ => ?_
    rw [Walk.deliverAll, List.map_map]
    rfl
  rw [hsteps, hsteps, h]

end DispatchTable

/-! ### Registrations -/

namespace Registration

variable {W S : Type} {registry : Registry} {detectors : List (Detector W S)}
  {r : Registration W S}

theorem mem_relevant_of_declares (hr : ofDetectors registry detectors = .ok r) {phase : Phase}
    {name : String} {d : Nat} (h : declares detectors phase (.annotated name) d = true) :
    name ∈ r.relevant := by
  rw [ofDetectors] at hr
  cases hc : checkAll registry [] detectors with
  | error e => rw [hc] at hr; cases hr
  | ok u =>
      rw [hc] at hr
      cases hr
      obtain ⟨detector, hd, hmem⟩ := declares_eq_true.mp h
      refine List.mem_eraseDups.mpr (List.mem_flatMap.mpr ⟨detector, List.mem_of_getElem? hd, ?_⟩)
      exact List.mem_filterMap.mpr ⟨_, hmem, rfl⟩

/-- Nobody is told of an annotation that is not relevant. -/
theorem onAnnotation_of_not_isAmong (hr : ofDetectors registry detectors = .ok r) (phase : Phase)
    {name : String} (h : View.isAmong r.relevant name = false) :
    DispatchTable.onAnnotation (r.tables phase) name = [] := by
  refine List.eq_nil_iff_forall_not_mem.mpr fun d hd => ?_
  have htable : r.tables phase = tableOf detectors phase := (of_ofDetectors hr).2 phase
  rw [htable] at hd
  obtain ⟨q, hq, hname⟩ := DispatchTable.annotated_of_mem (namesDistinct_tableOf ..) hd
  rw [listed_tableOf, positions, List.mem_filter] at hq
  have hmem : q ∈ r.relevant := mem_relevant_of_declares hr hq.2
  have hamong : View.isAmong r.relevant name = true := by
    rw [View.isAmong, Bool.or_eq_true]
    rcases hname with rfl | ⟨hpoint, hlast⟩
    · exact .inl (by simpa using hmem)
    · refine .inr ?_
      rw [Bool.and_eq_true, List.any_eq_true]
      exact ⟨by simpa using hpoint, q, hmem, by simpa using hlast⟩
  rw [h] at hamong
  cases hamong

section

variable (hr : ofDetectors registry detectors = .ok r) (phase : Phase) (v : View)

include hr

theorem dispatched_mergeAndFilter (declared : List Annotation) :
    (r.tables phase).dispatched ((v.restricted r.relevant).mergeAndFilter declared) =
      (r.tables phase).dispatched (v.unrestricted.mergeAndFilter declared) := by
  have hnone : ∀ a : Annotation, View.isKept r.relevant a = false →
      DispatchTable.onAnnotation (r.tables phase) a.name = [] :=
    fun a => onAnnotation_of_not_isAmong hr phase
  rw [← DispatchTable.dispatched_filter hnone,
    ← DispatchTable.dispatched_filter hnone (v.unrestricted.mergeAndFilter declared),
    View.filter_mergeAndFilter]

-- What is written on a declaration does not depend on what is of interest.

theorem dispatched_allAnnotations (decl : Declaration) (inherited : Bool) :
    (r.tables phase).dispatched ((v.restricted r.relevant).allAnnotations decl inherited) =
      (r.tables phase).dispatched (v.unrestricted.allAnnotations decl inherited) := by
  cases decl <;> exact dispatched_mergeAndFilter hr phase v _

theorem dispatched_nodeAnnotations (n : NodeId) :
    (r.tables phase).dispatched ((v.restricted r.relevant).nodeAnnotations n) =
      (r.tables phase).dispatched (v.unrestricted.nodeAnnotations n) :=
  dispatched_mergeAndFilter hr phase v _

theorem dispatched_methodAnnotations (m : MethodRef) :
    (r.tables phase).dispatched ((v.restricted r.relevant).methodAnnotations m) =
      (r.tables phase).dispatched (v.unrestricted.methodAnnotations m) := by
  rw [View.methodAnnotations, View.methodAnnotations]
  split
  · exact dispatched_allAnnotations hr phase v _ true
  · rfl

theorem dispatched_parameterAnnotations (m : MethodRef) (i : Nat) :
    (r.tables phase).dispatched ((v.restricted r.relevant).parameterAnnotations m i) =
      (r.tables phase).dispatched (v.unrestricted.parameterAnnotations m i) := by
  rw [View.parameterAnnotations, View.parameterAnnotations]
  split
  · exact dispatched_allAnnotations hr phase v _ true
  · rfl

end

end Registration

/-! ### Schedules -/

namespace View

theorem within_congr (t : Tree) (symbols : SymbolTable) (a b : Option (List String)) (n : Nat) :
    resolveWithin ⟨t, symbols, a⟩ n = resolveWithin ⟨t, symbols, b⟩ n ∧
      typeWithin ⟨t, symbols, a⟩ n = typeWithin ⟨t, symbols, b⟩ n ∧
      declaredWithin ⟨t, symbols, a⟩ n = declaredWithin ⟨t, symbols, b⟩ n ∧
      callWithin ⟨t, symbols, a⟩ n = callWithin ⟨t, symbols, b⟩ n := by
  induction n with
  | zero =>
      refine ⟨funext fun id => ?_, funext fun id => ?_, funext fun id => ?_, funext fun id => ?_⟩
      · rw [resolveWithin, resolveWithin]
      · rw [typeWithin, typeWithin]
      · rw [declaredWithin, declaredWithin]
      · rw [callWithin, callWithin]
  | succ n ih =>
      obtain ⟨hresolve, htype, hdeclared, hcall⟩ := ih
      refine ⟨funext fun id => ?_, funext fun id => ?_, funext fun id => ?_, funext fun id => ?_⟩
      · rw [resolveWithin, resolveWithin, hresolve, htype, hcall]
        rfl
      · rw [typeWithin, typeWithin, hresolve, htype, hdeclared, hcall]
        rfl
      · rw [declaredWithin, declaredWithin, htype]
        rfl
      · rw [callWithin, callWithin, hresolve, htype]
        rfl

theorem resolveCall_restricted (v : View) (names : List String) (n : NodeId) :
    (v.restricted names).resolveCall n = v.unrestricted.resolveCall n :=
  congrFun (within_congr v.tree v.symbols (some names) none v.bound).2.2.2 n

end View

namespace Walk

/-- Schedules that agree node by node agree on the whole. -/
theorem filter_nodeSteps_congr {w w' : Walk} (htree : w.view.tree = w'.view.tree)
    {p : Step → Bool}
    (henter : ∀ n, (w.enterSteps n).filter p = (w'.enterSteps n).filter p)
    (hexit : ∀ n, (w.exitSteps n).filter p = (w'.exitSteps n).filter p) (n : NodeId) :
    (w.nodeSteps n).filter p = (w'.nodeSteps n).filter p := by
  induction hm : w.view.tree.size - n using Nat.strongRecOn generalizing n with
  | _ m ih =>
      have hchildren : ((w.view.tree.children n).flatMap fun c =>
            if _ : w.view.tree.Below n c then w.nodeSteps c else []).filter p =
          ((w'.view.tree.children n).flatMap fun c =>
            if _ : w'.view.tree.Below n c then w'.nodeSteps c else []).filter p := by
        rw [List.filter_flatMap, List.filter_flatMap, htree]
        refine List.flatMap_congr fun c _ => ?_
        split
        · rename_i hbelow
          refine ih _ ?_ c rfl
          rw [← hm, htree]
          exact Tree.size_sub_lt_of_below hbelow
        · rfl
      rw [nodeSteps, nodeSteps, List.filter_append, List.filter_append, List.filter_append,
        List.filter_append, List.filter_append, List.filter_append, hchildren, henter, hexit, htree]

end Walk

namespace Registration

variable {W S : Type} {registry : Registry} {detectors : List (Detector W S)}
  {r : Registration W S} (phase : Phase) (v : View)

theorem namedTrigger?_restricted (names : List String) (n : NodeId) :
    Unit.namedTrigger? (v.restricted names) n = Unit.namedTrigger? v.unrestricted n := by
  rw [Unit.namedTrigger?, Unit.namedTrigger?, View.resolveCall_restricted]
  rfl

variable (hr : ofDetectors registry detectors = .ok r)

include hr

theorem useSteps_argumentUses_restricted (n : NodeId) (m : MethodRef) :
    Walk.useSteps (r.tables phase) ((v.restricted r.relevant).argumentUses n m) =
      Walk.useSteps (r.tables phase) (v.unrestricted.argumentUses n m) := by
  rw [View.argumentUses, View.argumentUses, Walk.useSteps, Walk.useSteps, List.flatMap_assoc,
    List.flatMap_assoc]
  apply List.flatMap_congr
  rintro ⟨argument, i⟩ -
  exact DispatchTable.useSteps_usesOf_congr (dispatched_parameterAnnotations hr phase v m i) ..

theorem useSteps_callUses_restricted (n : NodeId) :
    Walk.useSteps (r.tables phase) ((v.restricted r.relevant).callUses n) =
      Walk.useSteps (r.tables phase) (v.unrestricted.callUses n) := by
  rw [View.callUses, View.callUses, View.resolveCall_restricted]
  split
  · split
    · rw [Walk.useSteps_append, Walk.useSteps_append, useSteps_argumentUses_restricted phase v hr,
        DispatchTable.useSteps_usesOf_congr (dispatched_methodAnnotations hr phase v _)]
    · rfl
  · rfl

theorem useSteps_creationUses_restricted (n : NodeId) :
    Walk.useSteps (r.tables phase) ((v.restricted r.relevant).creationUses n) =
      Walk.useSteps (r.tables phase) (v.unrestricted.creationUses n) := by
  have hbound : ((v.restricted r.relevant).createdClass? n).bind
        ((⟨v.restricted r.relevant, {}⟩ : Walk).constructor? n) =
      (v.unrestricted.createdClass? n).bind ((⟨v.unrestricted, {}⟩ : Walk).constructor? n) := rfl
  rw [View.creationUses, View.creationUses, hbound]
  split
  · exact useSteps_argumentUses_restricted phase v hr n _
  · rfl

theorem useSteps_initializerUses_restricted (n : NodeId) :
    Walk.useSteps (r.tables phase) ((v.restricted r.relevant).initializerUses n) =
      Walk.useSteps (r.tables phase) (v.unrestricted.initializerUses n) := by
  have hvalue : (v.restricted r.relevant).tree.initializer n =
      v.unrestricted.tree.initializer n := rfl
  rw [View.initializerUses, View.initializerUses, hvalue]
  split
  · exact DispatchTable.useSteps_usesOf_congr (dispatched_nodeAnnotations hr phase v n) ..
  · rfl

theorem enterSteps_restricted (n : NodeId) :
    (⟨v.restricted r.relevant, r.tables phase⟩ : Walk).enterSteps n =
      (⟨v.unrestricted, r.tables phase⟩ : Walk).enterSteps n := by
  have hkind : (v.restricted r.relevant).tree.kind n = v.unrestricted.tree.kind n := rfl
  have huses : Walk.useSteps (r.tables phase) ((v.restricted r.relevant).uses n) =
      Walk.useSteps (r.tables phase) (v.unrestricted.uses n) := by
    rw [View.uses, View.uses, hkind]
    split
    · exact useSteps_callUses_restricted phase v hr n
    · exact useSteps_creationUses_restricted phase v hr n
    · rfl
    · exact useSteps_initializerUses_restricted phase v hr n
    · exact useSteps_initializerUses_restricted phase v hr n
    · rfl
  rw [Walk.enterSteps, Walk.enterSteps, Unit.namedSteps_eq, Unit.namedSteps_eq,
    Unit.triggerSteps, Unit.triggerSteps]
  simp only [namedTrigger?_restricted, huses, hkind]

theorem schedule_restricted (participants : List Nat) :
    (⟨v.restricted r.relevant, r.tables phase⟩ : Walk).schedule participants =
      (⟨v.unrestricted, r.tables phase⟩ : Walk).schedule participants := by
  have hnodes : ((⟨v.restricted r.relevant, r.tables phase⟩ : Walk).nodeSteps Tree.root).filter
        (fun _ => true) =
      ((⟨v.unrestricted, r.tables phase⟩ : Walk).nodeSteps Tree.root).filter fun _ => true := by
    apply Walk.filter_nodeSteps_congr
    · rfl
    · intro n
      rw [enterSteps_restricted phase v hr]
    · intro n
      rfl
  simp only [List.filter_true] at hnodes
  rw [Walk.schedule, Walk.schedule, hnodes]

end Registration

/-- In every phase, the same detectors are told of the same annotations, whether
or not a view is restricted to the annotations that detectors asked for; and
so the same is told in the same order in the whole unit. -/
theorem Registration.restriction_keeps_dispatch {W S : Type} {registry : Registry}
    {detectors : List (Detector W S)} {r : Registration W S}
    (hr : ofDetectors registry detectors = .ok r) (phase : Phase) (v : View) :
    (∀ decl inherited,
      (r.tables phase).dispatched ((v.restricted r.relevant).allAnnotations decl inherited) =
        (r.tables phase).dispatched (v.unrestricted.allAnnotations decl inherited)) ∧
    (∀ n, (r.tables phase).dispatched ((v.restricted r.relevant).nodeAnnotations n) =
      (r.tables phase).dispatched (v.unrestricted.nodeAnnotations n)) ∧
    ∀ participants,
      (⟨v.restricted r.relevant, r.tables phase⟩ : Walk).schedule participants =
        (⟨v.unrestricted, r.tables phase⟩ : Walk).schedule participants :=
  ⟨dispatched_allAnnotations hr phase v, dispatched_nodeAnnotations hr phase v,
    schedule_restricted phase v hr⟩

def watcher (name : String) : Detector Unit Unit where
  name := "watcher"
  issues := []
  interests := [⟨.source, .annotated name⟩]

/-- A method with an annotation that nobody asks for, and one that carries a
typedef among others. -/
def modeView : View where
  tree := default
  symbols :=
    { classes :=
        [{ ClassSymbol.compiled "app.Mode" .annotationType with
            annotations := [{ name := "java.lang.annotation.Retention" }, { name := "IntDef" }] },
          { ClassSymbol.compiled "app.Base" .plain with
            methods := [{ name := "setMode", returnType := some "void",
                          annotations := [{ name := "java.lang.Override" },
                            { name := "app.Mode" }] }] }] }

theorem watcher_told_in_modeView :
    (((modeView.restricted ["androidx.IntDef"]).allAnnotations
        (.method "app.Base" "setMode" 0) true).map (·.name) = ["app.Mode", "IntDef"] ∧
      (modeView.unrestricted.allAnnotations (.method "app.Base" "setMode" 0) true).map (·.name) =
        ["java.lang.Override", "app.Mode", "java.lang.annotation.Retention", "IntDef"]) ∧
    ∃ r, ofDetectors default [watcher "androidx.IntDef"] = .ok r ∧
      (r.tables .source).dispatched ((modeView.restricted r.relevant).allAnnotations
          (.method "app.Base" "setMode" 0) true) =
        (r.tables .source).dispatched (modeView.unrestricted.allAnnotations
          (.method "app.Base" "setMode" 0) true) := by
  have hr : ∃ r, ofDetectors default [watcher "androidx.IntDef"] = .ok r := ⟨_, rfl⟩
  obtain ⟨r, hr⟩ := hr
  exact ⟨by decide +kernel, r, hr, (restriction_keeps_dispatch hr .source modeView).1 _ _⟩

end LintEngine
