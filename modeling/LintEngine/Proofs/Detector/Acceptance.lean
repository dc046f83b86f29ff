import LintEngine.Proofs.Detector.Tables
import LintEngine.Proofs.Text

/-!
Which sets of detectors are accepted, and what the index of an accepted set
holds.

A set is checked detector by detector, against the names of those before. It
is accepted exactly if it fits the registry as a whole, which `Fits` says
without an order. The index is filled detector by detector too, and
`IsIndexOf` says what every list of it holds in the end.
-/

namespace LintEngine

def Trigger.name? : Trigger → Option String
  | .enter _ | .exit _ => none
  | .methodCall name | .constructorCall name | .annotated name | .xmlAttribute name
  | .xmlElement name => some name

def Trigger.GoesBy (trigger : Trigger) (kind : NodeKind) (name : String) : Prop :=
  trigger.nodeKind = kind ∧ trigger.name? = some name

instance (trigger : Trigger) (kind : NodeKind) (name : String) :
    Decidable (trigger.GoesBy kind name) :=
  inferInstanceAs (Decidable (_ ∧ _))

theorem DispatchTable.keeps_onName (kind : NodeKind) (name : String) :
    Keeps (·.onName kind name) fun trigger => trigger.GoesBy kind name where
  empty := rfl
  add := by
    intro t d entered
    cases entered with
    | enter | exit => simp [add, onName, Trigger.GoesBy, Trigger.name?]
    | methodCall | constructorCall | annotated | xmlAttribute | xmlElement =>
        simp only [add, onName, lookup_enterUnder, Trigger.GoesBy, Trigger.name?,
          Trigger.nodeKind, decide_eq_true_eq, beq_iff_eq, Prod.mk.injEq, Option.some.injEq,
          eq_comm (a := kind), eq_comm (a := name)]
        split <;> rfl

namespace Registration

variable {W S : Type} {registry : Registry} {detectors : List (Detector W S)}

/-! ### Acceptance -/

/-- Every issue of a detector is registered as that very definition, and every
interest can come up in its phase. -/
structure IsLegal (registry : Registry) (d : Detector W S) : Prop where
  issues : ∀ i ∈ d.issues, ∃ registered,
    registry.issue? i.id = some registered ∧ i.isSame registered
  interests : ∀ i ∈ d.interests, i.trigger.nodeKind.occursIn i.phase

structure Fits (registry : Registry) (detectors : List (Detector W S)) : Prop where
  names : (detectors.map (·.name)).Nodup
  legal : ∀ d ∈ detectors, IsLegal registry d

theorem objection?_eq_none_iff {names : List String} {d : Detector W S} :
    objection? registry names d = none ↔ d.name ∉ names ∧ IsLegal registry d := by
  have hissues : (d.issues.find? fun i => !registry.contains i) = none ↔
      ∀ i ∈ d.issues, ∃ registered, registry.issue? i.id = some registered ∧
        i.isSame registered := by
    simp [List.find?_eq_none, Registry.contains, Option.any_eq_true]
  have hinterests : (d.interests.find? fun i => !i.trigger.nodeKind.occursIn i.phase) = none ↔
      ∀ i ∈ d.interests, i.trigger.nodeKind.occursIn i.phase := by
    simp [List.find?_eq_none]
  rw [objection?]
  split
  · rename_i hname
    have hmem : d.name ∈ names := by simpa using hname
    exact ⟨fun h => (Option.some_ne_none _ h).elim, fun h => (h.1 hmem).elim⟩
  · rename_i hname
    have hfresh : d.name ∉ names := by simpa using hname
    split
    · rename_i i hi
      refine ⟨fun h => (Option.some_ne_none _ h).elim, fun h => ?_⟩
      rw [hissues.mpr h.2.issues] at hi
      cases hi
    · rename_i hi
      rw [Option.map_eq_none_iff, hinterests]
      exact ⟨fun h => ⟨hfresh, hissues.mp hi, h⟩, fun h => h.2.interests⟩

theorem fits_cons {d : Detector W S} :
    Fits registry (d :: detectors) ↔
      IsLegal registry d ∧ (∀ e ∈ detectors, e.name ≠ d.name) ∧ Fits registry detectors := by
  have hnames : ((d :: detectors).map (·.name)).Nodup ↔
      (∀ e ∈ detectors, e.name ≠ d.name) ∧ (detectors.map (·.name)).Nodup := by
    simp [List.nodup_cons]
  constructor
  · intro h
    obtain ⟨hne, hnodup⟩ := hnames.mp h.names
    obtain ⟨hlegal, hrest⟩ := List.forall_mem_cons.mp h.legal
    exact ⟨hlegal, hne, hnodup, hrest⟩
  · rintro ⟨hlegal, hne, hnodup, hrest⟩
    exact ⟨hnames.mpr ⟨hne, hnodup⟩, List.forall_mem_cons.mpr ⟨hlegal, hrest⟩⟩

/-- Checking one detector after the other, each against the names before it,
is checking the set as a whole. -/
theorem checkAll_eq_ok_iff {names : List String} :
    checkAll registry names detectors = .ok () ↔
      (∀ d ∈ detectors, d.name ∉ names) ∧ Fits registry detectors := by
  induction detectors generalizing names with
  | nil => exact ⟨fun _ => ⟨by simp, .nil, by simp⟩, fun _ => rfl⟩
  | cons d ds ih =>
      rw [checkAll, fits_cons, List.forall_mem_cons]
      cases hobjection : objection? registry names d with
      | some text =>
          constructor
          · intro h
            cases h
          · rintro ⟨⟨hname, -⟩, hlegal, -⟩
            rw [objection?_eq_none_iff.mpr ⟨hname, hlegal⟩] at hobjection
            cases hobjection
      | none =>
          obtain ⟨hname, hlegal⟩ := objection?_eq_none_iff.mp hobjection
          simp only [ih, List.mem_cons, not_or]
          constructor
          · rintro ⟨hfresh, hfits⟩
            exact ⟨⟨hname, fun e he => (hfresh e he).2⟩, hlegal, fun e he => (hfresh e he).1, hfits⟩
          · rintro ⟨⟨-, hfresh⟩, -, hne, hfits⟩
            exact ⟨fun e he => ⟨hne e he, hfresh e he⟩, hfits⟩

theorem exists_ofDetectors_iff :
    (∃ r, ofDetectors registry detectors = .ok r) ↔ Fits registry detectors := by
  have hchecked : (∃ r, ofDetectors registry detectors = .ok r) ↔
      checkAll registry [] detectors = .ok () := by
    rw [ofDetectors]
    cases checkAll registry [] detectors with
    | error e =>
        constructor
        · rintro ⟨r, h⟩
          cases h
        · intro h
          cases h
    | ok u => exact ⟨fun _ => rfl, fun _ => ⟨_, rfl⟩⟩
  rw [hchecked, checkAll_eq_ok_iff]
  exact and_iff_right fun d _ => List.not_mem_nil

/-! ### The index -/

/-- A list holds exactly the positions with a property, in the order of
registration and none of them twice. -/
def Lists (l : List Nat) (p : Nat → Prop) : Prop := l.Pairwise (· < ·) ∧ ∀ d, d ∈ l ↔ p d

def Declared (detectors : List (Detector W S)) (phase : Phase) (trigger : Trigger) (d : Nat) :
    Prop :=
  ∃ detector, detectors[d]? = some detector ∧ ⟨phase, trigger⟩ ∈ detector.interests

/-- The detectors that are told of an annotation: those that declared exactly its
name, or, if there are none and the name has no point, those that declared a
qualified name ending in it. -/
def IsToldOf (detectors : List (Detector W S)) (phase : Phase) (name : String) (d : Nat) :
    Prop :=
  Declared detectors phase (.annotated name) d ∨
    (¬∃ j, Declared detectors phase (.annotated name) j) ∧ '.' ∉ name.toList ∧
      ∃ qualifier, Declared detectors phase (.annotated (qualifier ++ "." ++ name)) d

/-- The lists of a registration hold what the detectors declared. -/
structure IsIndexOf (r : Registration W S) (detectors : List (Detector W S)) : Prop where
  detectors_eq : r.detectors = detectors
  onEnter : ∀ phase kind,
    Lists ((r.tables phase).onEnter kind) (Declared detectors phase (.enter kind))
  onExit : ∀ phase kind,
    Lists ((r.tables phase).onExit kind) (Declared detectors phase (.exit kind))
  onName : ∀ phase kind name,
    Lists ((r.tables phase).onName kind name) fun d =>
      ∃ trigger, trigger.GoesBy kind name ∧ Declared detectors phase trigger d
  onAnnotation : ∀ phase name,
    Lists (DispatchTable.onAnnotation (r.tables phase) name) (IsToldOf detectors phase name)
  relevant_nodup : r.relevant.Nodup
  mem_relevant : ∀ name,
    name ∈ r.relevant ↔ ∃ phase d, Declared detectors phase (.annotated name) d

theorem lists_listed (phase : Phase) (trigger : Trigger) :
    Lists ((tableOf detectors phase).listed trigger) (Declared detectors phase trigger) := by
  rw [listed_tableOf]
  exact ⟨positions_sorted .., fun d => mem_positions_declares.trans declares_eq_true⟩

theorem lists_onName (phase : Phase) (kind : NodeKind) (name : String) :
    Lists ((tableOf detectors phase).onName kind name) fun d =>
      ∃ trigger, trigger.GoesBy kind name ∧ Declared detectors phase trigger d := by
  rw [look_tableOf (DispatchTable.keeps_onName kind name)]
  refine ⟨positions_sorted .., fun d => ?_⟩
  rw [positions, List.mem_filter, List.mem_range, asksFor, Option.any_eq_true]
  simp only [List.any_eq_true, Bool.and_eq_true, beq_iff_eq, decide_eq_true_eq]
  constructor
  · rintro ⟨-, detector, hd, ⟨_, trigger⟩, hi, rfl, hfor⟩
    exact ⟨trigger, hfor, detector, hd, hi⟩
  · rintro ⟨trigger, hfor, detector, hd, hi⟩
    exact ⟨(List.getElem?_eq_some_iff.mp hd).1, detector, hd, _, hi, rfl, hfor⟩

theorem lists_onAnnotation (phase : Phase) (name : String) :
    Lists (DispatchTable.onAnnotation (tableOf detectors phase) name)
      (IsToldOf detectors phase name) := by
  refine ⟨sorted_onAnnotation_tableOf .., fun d => mem_onAnnotation_tableOf.trans ?_⟩
  simp only [declares_eq_true, IsAskedFor, IsToldOf, Declared]
  refine or_congr_right (and_congr_right fun hnone => and_congr_right fun hpoint => ?_)
  simp only [Text.lastField_eq_iff hpoint]
  constructor
  · rintro ⟨q, rfl | ⟨qualifier, rfl⟩, hq⟩
    · exact (hnone ⟨d, hq⟩).elim
    · exact ⟨qualifier, hq⟩
  · rintro ⟨qualifier, hq⟩
    exact ⟨_, .inr ⟨qualifier, rfl⟩, hq⟩

theorem mem_annotatedNames {name : String} :
    name ∈ (detectors.flatMap fun d => d.interests.filterMap fun i => annotatedName? i.trigger) ↔
      ∃ phase d, Declared detectors phase (.annotated name) d := by
  have hname : ∀ trigger, annotatedName? trigger = some name ↔ trigger = .annotated name := by
    intro trigger
    cases trigger <;> simp [annotatedName?]
  simp only [List.mem_flatMap, List.mem_filterMap, hname, Declared]
  constructor
  · rintro ⟨detector, hmem, ⟨phase, _⟩, hi, rfl⟩
    obtain ⟨d, hd⟩ := List.mem_iff_getElem?.mp hmem
    exact ⟨phase, d, detector, hd, hi⟩
  · rintro ⟨phase, d, detector, hd, hi⟩
    exact ⟨detector, List.mem_of_getElem? hd, _, hi, rfl⟩

theorem nodup_eraseDups {α : Type} [BEq α] [LawfulBEq α] (l : List α) : l.eraseDups.Nodup := by
  induction hlength : l.length using Nat.strongRecOn generalizing l with
  | _ k ih =>
      cases l with
      | nil => exact List.nodup_nil
      | cons a l =>
          have hshorter : (l.filter fun b => !b == a).length < k := by
            rw [← hlength, List.length_cons]
            exact Nat.lt_succ_of_le (List.length_filter_le ..)
          rw [List.eraseDups_cons, List.nodup_cons]
          exact ⟨by simp, ih _ hshorter _ rfl⟩

theorem isIndexOf_of_ofDetectors {r : Registration W S}
    (h : ofDetectors registry detectors = .ok r) : r.IsIndexOf detectors := by
  obtain ⟨hdetectors, htables⟩ := of_ofDetectors h
  have hrelevant : r.relevant = (detectors.flatMap fun d =>
      d.interests.filterMap fun i => annotatedName? i.trigger).eraseDups := by
    rw [ofDetectors] at h
    cases hc : checkAll registry [] detectors with
    | error e => rw [hc] at h; cases h
    | ok u => rw [hc] at h; cases h; rfl
  exact {
    detectors_eq := hdetectors
    onEnter := fun phase kind => htables phase ▸ lists_listed phase (.enter kind)
    onExit := fun phase kind => htables phase ▸ lists_listed phase (.exit kind)
    onName := fun phase kind name => htables phase ▸ lists_onName phase kind name
    onAnnotation := fun phase name => htables phase ▸ lists_onAnnotation phase name
    relevant_nodup := hrelevant ▸ nodup_eraseDups _
    mem_relevant := fun name => by
      rw [hrelevant, List.mem_eraseDups]
      exact mem_annotatedNames }

/-- Detectors are accepted exactly if they fit the registry, and then every
list of the index holds exactly what they declared. -/
theorem acceptance_is_exact (registry : Registry) (detectors : List (Detector W S)) :
    ((∃ r, ofDetectors registry detectors = .ok r) ↔ Fits registry detectors) ∧
      ∀ r, ofDetectors registry detectors = .ok r → r.IsIndexOf detectors :=
  ⟨exists_ofDetectors_iff, fun _ h => isIndexOf_of_ofDetectors h⟩

end Registration

end LintEngine
