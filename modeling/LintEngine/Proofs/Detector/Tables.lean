import LintEngine.Detector.Registration
import Mathlib.Data.List.Induction

/-!
What the index of a registration holds.

The three maps of a table are one function from triggers to lists of
positions, `DispatchTable.listed`, and entering a detector changes it at one
trigger. So for every trigger the table lists exactly the detectors that
declared it, in the order of registration.
-/

namespace LintEngine

namespace DispatchTable

/-! ### Positions under a key -/

theorem mem_include {d x : Nat} {l : List Nat} : x ∈ include_ d l ↔ x = d ∨ x ∈ l := by
  rw [include_]
  split
  · rename_i hd
    have hd : d ∈ l := by simpa using hd
    exact ⟨.inr, fun h => h.elim (fun h => h ▸ hd) id⟩
  · rw [List.mem_append, List.mem_singleton, or_comm]

theorem include_of_not_mem {d : Nat} {l : List Nat} (h : d ∉ l) : include_ d l = l ++ [d] := by
  rw [include_, if_neg (by simpa using h)]

theorem include_include (d : Nat) (l : List Nat) : include_ d (include_ d l) = include_ d l := by
  have hd : (include_ d l).contains d = true := by simp [mem_include]
  rw [include_, if_pos hd]

variable {κ : Type} [BEq κ] [LawfulBEq κ]

theorem lookup_enterUnder (key : κ) (d : Nat) (l : List (κ × List Nat)) (k : κ) :
    (enterUnder key d l).lookup k =
      if k == key then some (include_ d ((l.lookup k).getD [])) else l.lookup k := by
  induction l with
  | nil =>
      rw [enterUnder, List.lookup_cons]
      split <;> simp_all [include_]
  | cons e l ih =>
      obtain ⟨k', list⟩ := e
      rw [enterUnder]
      by_cases hk : k' = key
      · subst hk
        rw [if_pos (beq_self_eq_true k'), List.lookup_cons, List.lookup_cons]
        by_cases hkk : k = k'
        · simp [hkk]
        · simp [beq_eq_false_iff_ne.mpr hkk]
      · rw [if_neg (by simpa using hk), List.lookup_cons, List.lookup_cons, ih]
        by_cases hkk : k = k'
        · subst hkk
          simp [hk]
        · simp [beq_eq_false_iff_ne.mpr hkk]

theorem keys_enterUnder (key : κ) (d : Nat) (l : List (κ × List Nat)) :
    (enterUnder key d l).map (·.1) =
      if key ∈ l.map (·.1) then l.map (·.1) else l.map (·.1) ++ [key] := by
  induction l with
  | nil => rfl
  | cons e l ih =>
      obtain ⟨k', list⟩ := e
      rw [enterUnder]
      by_cases hk : k' = key
      · subst hk
        simp
      · rw [if_neg (by simpa using hk), List.map_cons, ih]
        by_cases hmem : key ∈ l.map (·.1)
        · rw [if_pos hmem, if_pos (by simp only [List.map_cons, List.mem_cons, hmem, or_true])]
          rfl
        · rw [if_neg hmem, if_neg (by simp only [List.map_cons, List.mem_cons, not_or]
                                      exact ⟨Ne.symm hk, hmem⟩)]
          rfl

theorem lookup_eq_of_mem {l : List (κ × List Nat)} (h : (l.map (·.1)).Nodup) {k : κ}
    {list : List Nat} (hmem : (k, list) ∈ l) : l.lookup k = some list := by
  induction l with
  | nil => cases hmem
  | cons e l ih =>
      obtain ⟨k', list'⟩ := e
      rw [List.map_cons, List.nodup_cons] at h
      rw [List.lookup_cons]
      rcases List.mem_cons.mp hmem with heq | hrest
      · cases heq
        simp
      · have hne : k ≠ k' := fun heq => h.1 (heq ▸ List.mem_map.mpr ⟨_, hrest, rfl⟩)
        rw [beq_eq_false_iff_ne.mpr hne]
        exact ih h.2 hrest

theorem mem_of_lookup_eq {l : List (κ × List Nat)} {k : κ} {list : List Nat}
    (h : l.lookup k = some list) : (k, list) ∈ l := by
  obtain ⟨front, back, rfl, -⟩ := List.lookup_eq_some_iff.mp h
  exact List.mem_append_right _ List.mem_cons_self

/-! ### One list for each trigger -/

/-- The detectors that are told when a trigger goes off. -/
def listed (t : DispatchTable) : Trigger → List Nat
  | .enter kind => t.onEnter kind
  | .exit kind => t.onExit kind
  | .methodCall name => t.onName .call name
  | .constructorCall name => t.onName .new name
  | .annotated name => t.onName .annotationUse name
  | .xmlAttribute name => t.onName .xmlAttribute name
  | .xmlElement name => t.onName .xmlElement name

theorem listed_add (t : DispatchTable) (d : Nat) (entered asked : Trigger) :
    (t.add d entered).listed asked =
      if asked = entered then include_ d (t.listed asked) else t.listed asked := by
  cases entered <;> cases asked <;>
    simp only [add, listed, onEnter, onExit, onName, lookup_enterUnder, Trigger.nodeKind] <;>
    split <;> simp_all

/-- A list of a table into which a detector is put for certain triggers. -/
structure Keeps (look : DispatchTable → List Nat) (p : Trigger → Bool) : Prop where
  empty : look {} = []
  add : ∀ t d entered, look (t.add d entered) = if p entered then include_ d (look t) else look t

theorem keeps_listed (asked : Trigger) : Keeps (listed · asked) (· == asked) where
  empty := by cases asked <;> rfl
  add := by
    intro t d entered
    simp only [listed_add, beq_iff_eq, eq_comm (a := asked)]

theorem keeps_participants : Keeps participants fun _ => true where
  empty := rfl
  add := by
    intro t d entered
    cases entered <;> rfl

def NamesDistinct (t : DispatchTable) : Prop := (t.named.map (·.1)).Nodup

theorem NamesDistinct.add {t : DispatchTable} (h : t.NamesDistinct) (d : Nat) (entered : Trigger) :
    (t.add d entered).NamesDistinct := by
  have key : ∀ k, ((enterUnder k d t.named).map (·.1)).Nodup := by
    intro k
    rw [keys_enterUnder]
    split
    · exact h
    · rename_i hmem
      refine List.nodup_append.mpr ⟨h, by simp, fun a ha b hb => ?_⟩
      rw [List.mem_singleton.mp hb]
      exact fun heq => hmem (heq ▸ ha)
  cases entered with
  | enter | exit => exact h
  | methodCall | constructorCall | annotated | xmlAttribute | xmlElement => exact key _

/-! ### The detectors for an annotation -/

theorem mem_eraseReps {x : Nat} {l : List Nat} : x ∈ l.eraseReps ↔ x ∈ l := by
  -- the loop holds one element back and collects the others in reverse
  have loop : ∀ (l acc : List Nat) (a : Nat), x ∈ List.eraseRepsBy.loop (· == ·) a l acc ↔
      x = a ∨ x ∈ l ∨ x ∈ acc := by
    intro l
    induction l with
    | nil =>
        intro acc a
        rw [List.eraseRepsBy.loop, List.mem_reverse, List.mem_cons]
        simp
    | cons b l ih =>
        intro acc a
        rw [List.eraseRepsBy.loop]
        split
        · rename_i hab
          have hab : a = b := by simpa using hab
          rw [ih, List.mem_cons, hab]
          tauto
        · rw [ih, List.mem_cons, List.mem_cons]
          tauto
  cases l with
  | nil => rfl
  | cons a l => exact (loop l [] a).trans (by simp)

theorem pairwise_lt_eraseReps {l : List Nat} (h : l.Pairwise (· ≤ ·)) :
    l.eraseReps.Pairwise (· < ·) := by
  have loop : ∀ (l acc : List Nat) (a : Nat), (a :: l).Pairwise (· ≤ ·) →
      acc.Pairwise (· > ·) → (∀ x ∈ acc, x < a) →
      (List.eraseRepsBy.loop (· == ·) a l acc).Pairwise (· < ·) := by
    intro l
    induction l with
    | nil =>
        intro acc a _ hacc hlt
        rw [List.eraseRepsBy.loop, List.pairwise_reverse]
        exact List.pairwise_cons.mpr ⟨hlt, hacc⟩
    | cons b l ih =>
        intro acc a hsorted hacc hlt
        obtain ⟨ha, hl⟩ := List.pairwise_cons.mp hsorted
        rw [List.eraseRepsBy.loop]
        split
        · rename_i hab
          obtain rfl : a = b := by simpa using hab
          exact ih acc a hl hacc hlt
        · rename_i hab
          have hne : a ≠ b := by simpa using hab
          have hab : a < b := Nat.lt_of_le_of_ne (ha b List.mem_cons_self) hne
          refine ih (a :: acc) b hl (List.pairwise_cons.mpr ⟨hlt, hacc⟩) fun x hx => ?_
          rcases List.mem_cons.mp hx with rfl | hx
          · exact hab
          · exact Nat.lt_trans (hlt x hx) hab
  cases l with
  | nil => exact List.Pairwise.nil
  | cons a l => exact loop l [] a h List.Pairwise.nil (by simp)

/-- A name stands for the detectors that declared it. A name without a point
that nobody declared stands for those that declared a qualified name ending in
it. -/
theorem mem_onAnnotation_iff {t : DispatchTable} (h : t.NamesDistinct) {name : String} {d : Nat} :
    d ∈ t.onAnnotation name ↔ d ∈ t.listed (.annotated name) ∨
      (t.listed (.annotated name) = [] ∧ '.' ∉ name.toList ∧
        ∃ q, Text.lastField '.' q = name ∧ d ∈ t.listed (.annotated q)) := by
  have hloose : d ∈ (t.named.filter fun e =>
      e.1.1 == .annotationUse && Text.lastField '.' e.1.2 == name).flatMap (·.2) ↔
      ∃ q, Text.lastField '.' q = name ∧ d ∈ t.listed (.annotated q) := by
    simp only [List.mem_flatMap, List.mem_filter, Bool.and_eq_true, beq_iff_eq]
    constructor
    · rintro ⟨⟨⟨kind, q⟩, list⟩, ⟨he, rfl, hq⟩, hlist⟩
      refine ⟨q, hq, ?_⟩
      rw [listed, onName, lookup_eq_of_mem h he]
      exact hlist
    · rintro ⟨q, hq, hd⟩
      rw [listed, onName] at hd
      cases hlookup : t.named.lookup (.annotationUse, q) with
      | none =>
          rw [hlookup] at hd
          cases hd
      | some list =>
          rw [hlookup] at hd
          exact ⟨_, ⟨mem_of_lookup_eq hlookup, rfl, hq⟩, hd⟩
  have hexact : t.onName .annotationUse name = t.listed (.annotated name) := rfl
  unfold onAnnotation
  simp only [hexact]
  split
  · rename_i hcond
    refine ⟨.inl, fun hd => hd.resolve_right ?_⟩
    rintro ⟨hnil, hpoint, -⟩
    rw [hnil] at hcond
    simp [hpoint] at hcond
  · rename_i hcond
    have hnil : t.listed (.annotated name) = [] := by simp_all
    have hpoint : '.' ∉ name.toList := by simp_all
    rw [mem_eraseReps, List.mem_mergeSort]
    refine hloose.trans ⟨fun hq => .inr ⟨hnil, hpoint, hq⟩, fun hd => ?_⟩
    rcases hd with hd | ⟨-, -, hq⟩
    · rw [hnil] at hd
      cases hd
    · exact hq

theorem annotated_of_mem {t : DispatchTable} (h : t.NamesDistinct) {name : String} {d : Nat}
    (hd : d ∈ t.onAnnotation name) :
    ∃ q, d ∈ t.listed (.annotated q) ∧
      (q = name ∨ ('.' ∉ name.toList ∧ Text.lastField '.' q = name)) := by
  rcases (mem_onAnnotation_iff h).mp hd with hd | ⟨-, hpoint, q, hq, hd⟩
  · exact ⟨name, hd, .inl rfl⟩
  · exact ⟨q, hd, .inr ⟨hpoint, hq⟩⟩

theorem onAnnotation_sorted {t : DispatchTable}
    (h : ∀ trigger, (t.listed trigger).Pairwise (· < ·)) (name : String) :
    (t.onAnnotation name).Pairwise (· < ·) := by
  unfold onAnnotation
  simp only
  split
  · exact h (.annotated name)
  · refine pairwise_lt_eraseReps ?_
    have hsorted := @List.pairwise_mergeSort Nat (fun a b => decide (a ≤ b))
      (fun a b c hab hbc => by simp_all; omega) (fun a b => by simp; omega)
    exact (hsorted _).imp fun hle => by simpa using hle

end DispatchTable

/-! ### The table of a phase -/

namespace Registration

variable {W S : Type}

def declares (detectors : List (Detector W S)) (phase : Phase) (trigger : Trigger) (d : Nat) :
    Bool :=
  (detectors[d]?).any fun detector => detector.interests.contains ⟨phase, trigger⟩

def takesPart (detectors : List (Detector W S)) (phase : Phase) (d : Nat) : Bool :=
  (detectors[d]?).any fun detector => detector.interests.any (·.phase == phase)

theorem declares_eq_true {detectors : List (Detector W S)} {phase : Phase} {trigger : Trigger}
    {d : Nat} : declares detectors phase trigger d = true ↔
      ∃ detector, detectors[d]? = some detector ∧ ⟨phase, trigger⟩ ∈ detector.interests := by
  simp [declares, Option.any_eq_true]

theorem takesPart_of_declares {detectors : List (Detector W S)} {phase : Phase}
    {trigger : Trigger} {d : Nat} (h : declares detectors phase trigger d = true) :
    takesPart detectors phase d = true := by
  obtain ⟨detector, hd, hmem⟩ := declares_eq_true.mp h
  rw [takesPart, hd]
  exact List.any_eq_true.mpr ⟨_, hmem, by simp⟩

def enterAll (t : DispatchTable) (d : Nat) (interests : List Interest) : DispatchTable :=
  interests.foldl (fun t i => t.add d i.trigger) t

theorem look_enterAll {look : DispatchTable → List Nat} {p : Trigger → Bool}
    (h : DispatchTable.Keeps look p) (t : DispatchTable) (d : Nat) (interests : List Interest) :
    look (enterAll t d interests) =
      if interests.any fun i => p i.trigger then DispatchTable.include_ d (look t) else look t := by
  induction interests generalizing t with
  | nil => rfl
  | cons i interests ih =>
      rw [enterAll, List.foldl_cons]
      refine (ih (t.add d i.trigger)).trans ?_
      rw [h.add]
      cases hi : p i.trigger <;> cases hany : interests.any fun i => p i.trigger <;>
        simp [hi, hany, DispatchTable.include_include]

theorem namesDistinct_enterAll {t : DispatchTable} (h : t.NamesDistinct) (d : Nat)
    (interests : List Interest) : (enterAll t d interests).NamesDistinct := by
  induction interests generalizing t with
  | nil => exact h
  | cons i interests ih => exact ih (h.add d i.trigger)

theorem tableOf_concat (detectors : List (Detector W S)) (detector : Detector W S)
    (phase : Phase) :
    tableOf (detectors ++ [detector]) phase =
      enterAll (tableOf detectors phase) detectors.length
        (detector.interests.filter (·.phase == phase)) := by
  rw [tableOf, tableOf, List.zipIdx_append, List.foldl_append]
  simp [enterAll]

def positions (detectors : List (Detector W S)) (p : Nat → Bool) : List Nat :=
  (List.range detectors.length).filter p

/-- A list of positions, when one more detector is registered. -/
theorem positions_concat {detectors : List (Detector W S)} {detector : Detector W S}
    {p q : Nat → Bool} {b : Bool} (hold : ∀ d < detectors.length, p d = q d)
    (hnew : p detectors.length = b) :
    positions (detectors ++ [detector]) p =
      if b then DispatchTable.include_ detectors.length (positions detectors q)
      else positions detectors q := by
  have hfresh : detectors.length ∉ positions detectors q := by simp [positions]
  have hrest : (List.range detectors.length).filter p = positions detectors q :=
    List.filter_congr fun d hd => hold d (List.mem_range.mp hd)
  rw [DispatchTable.include_of_not_mem hfresh, positions, List.length_append,
    List.length_singleton, List.range_succ, List.filter_append, hrest]
  cases b <;> simp [hnew]

theorem getElem?_concat_lt {detectors : List (Detector W S)} {detector : Detector W S} {d : Nat}
    (h : d < detectors.length) : (detectors ++ [detector])[d]? = detectors[d]? :=
  List.getElem?_append_left h

def asksFor (detectors : List (Detector W S)) (phase : Phase) (p : Trigger → Bool) (d : Nat) :
    Bool :=
  (detectors[d]?).any fun detector =>
    detector.interests.any fun i => i.phase == phase && p i.trigger

/-- A list of the table of a phase holds the detectors that declared one of its
triggers there. -/
theorem look_tableOf {look : DispatchTable → List Nat} {p : Trigger → Bool}
    (h : DispatchTable.Keeps look p) (detectors : List (Detector W S)) (phase : Phase) :
    look (tableOf detectors phase) = positions detectors (asksFor detectors phase p) := by
  induction detectors using List.reverseRecOn with
  | nil => exact h.empty
  | append_singleton detectors detector ih =>
      rw [tableOf_concat, look_enterAll h, ih, List.any_filter,
        positions_concat (q := asksFor detectors phase p) (fun d hd => ?_) rfl]
      · rw [asksFor, List.getElem?_concat_length, Option.any_some]
      · rw [asksFor, asksFor, getElem?_concat_lt hd]

/-- For every trigger, the table of a phase lists the detectors that declared
it there. -/
theorem listed_tableOf (detectors : List (Detector W S)) (phase : Phase) (asked : Trigger) :
    (tableOf detectors phase).listed asked =
      positions detectors (declares detectors phase asked) := by
  refine (look_tableOf (DispatchTable.keeps_listed asked) detectors phase).trans ?_
  refine congrArg (positions detectors) (funext fun d => ?_)
  rw [asksFor, declares]
  refine congrArg (Option.any · detectors[d]?) (funext fun detector => ?_)
  rw [List.contains_eq_any_beq]
  refine congrArg detector.interests.any (funext fun ⟨p, trigger⟩ => ?_)
  rw [Bool.eq_iff_iff, Bool.and_eq_true, beq_iff_eq, beq_iff_eq, beq_iff_eq, Interest.mk.injEq,
    eq_comm, eq_comm (a := trigger)]

theorem participants_tableOf (detectors : List (Detector W S)) (phase : Phase) :
    (tableOf detectors phase).participants = positions detectors (takesPart detectors phase) := by
  refine (look_tableOf DispatchTable.keeps_participants detectors phase).trans ?_
  refine congrArg (positions detectors) (funext fun d => ?_)
  simp only [asksFor, takesPart, Bool.and_true]

theorem namesDistinct_tableOf (detectors : List (Detector W S)) (phase : Phase) :
    (tableOf detectors phase).NamesDistinct := by
  induction detectors using List.reverseRecOn with
  | nil => exact List.nodup_nil
  | append_singleton detectors detector ih =>
      rw [tableOf_concat]
      exact namesDistinct_enterAll ih _ _

theorem positions_sorted (detectors : List (Detector W S)) (p : Nat → Bool) :
    (positions detectors p).Pairwise (· < ·) :=
  List.pairwise_lt_range.filter p

theorem positions_nodup (detectors : List (Detector W S)) (p : Nat → Bool) :
    (positions detectors p).Nodup :=
  List.nodup_range.filter p

theorem mem_positions_declares {detectors : List (Detector W S)} {phase : Phase}
    {trigger : Trigger} {d : Nat} :
    d ∈ positions detectors (declares detectors phase trigger) ↔
      declares detectors phase trigger d = true := by
  rw [positions, List.mem_filter, List.mem_range]
  refine and_iff_right_of_imp fun h => ?_
  obtain ⟨detector, hd, -⟩ := declares_eq_true.mp h
  exact (List.getElem?_eq_some_iff.mp hd).1

def IsAskedFor (detectors : List (Detector W S)) (phase : Phase) (name : String) : Prop :=
  ∃ j, declares detectors phase (.annotated name) j = true

theorem mem_onAnnotation_tableOf {detectors : List (Detector W S)} {phase : Phase}
    {name : String} {d : Nat} :
    d ∈ DispatchTable.onAnnotation (tableOf detectors phase) name ↔
      declares detectors phase (.annotated name) d = true ∨
        (¬IsAskedFor detectors phase name ∧ '.' ∉ name.toList ∧
          ∃ q, Text.lastField '.' q = name ∧ declares detectors phase (.annotated q) d = true) := by
  rw [DispatchTable.mem_onAnnotation_iff (namesDistinct_tableOf ..)]
  simp only [listed_tableOf, mem_positions_declares]
  have hasked : positions detectors (declares detectors phase (.annotated name)) = [] ↔
      ¬IsAskedFor detectors phase name := by
    rw [List.eq_nil_iff_forall_not_mem, IsAskedFor, not_exists]
    exact forall_congr' fun j => not_congr mem_positions_declares
  rw [hasked]

theorem sorted_onAnnotation_tableOf (detectors : List (Detector W S)) (phase : Phase)
    (name : String) :
    (DispatchTable.onAnnotation (tableOf detectors phase) name).Pairwise (· < ·) := by
  refine DispatchTable.onAnnotation_sorted (fun trigger => ?_) name
  rw [listed_tableOf]
  exact positions_sorted ..

theorem nodup_onAnnotation_tableOf (detectors : List (Detector W S)) (phase : Phase)
    (name : String) : (DispatchTable.onAnnotation (tableOf detectors phase) name).Nodup :=
  (sorted_onAnnotation_tableOf detectors phase name).imp Nat.ne_of_lt

/-- A registration holds the detectors it was made of, and their tables. -/
theorem of_ofDetectors {registry : Registry} {detectors : List (Detector W S)}
    {r : Registration W S} (h : ofDetectors registry detectors = .ok r) :
    r.detectors = detectors ∧ ∀ phase, r.tables phase = tableOf detectors phase := by
  rw [ofDetectors] at h
  cases hc : checkAll registry [] detectors with
  | error e => rw [hc] at h; cases h
  | ok u =>
      rw [hc] at h
      cases h
      exact ⟨rfl, fun phase => by cases phase <;> rfl⟩

end Registration

end LintEngine
