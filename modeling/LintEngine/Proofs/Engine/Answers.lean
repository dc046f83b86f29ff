import LintEngine.Proofs.Engine.Unit

/-!
What a unit is made of: the answers of its detectors.

A run over a unit makes callbacks, and each callback gives an answer: what the
detector handed in, and whether it failed. The findings and the failures of the
unit are those of the answers, in their order. A detector that fails gives no
more answers, so it fails once at most.
-/

namespace LintEngine

namespace Unit

variable {W S : Type}

structure Answer (W S : Type) where
  caller : Caller
  event : Event
  fault : Option Fault
  desk : Desk W S

namespace Answer

variable (env : Env W) (a : Answer W S)

/-- The failure that a fault is recorded as. -/
def breakdown : Option Failure :=
  a.fault.map fun f =>
    { detector := a.caller.name, file := env.view.tree.file, message := f.message }

/-- The finding that a fault is reported as, if it is reported. -/
def notice : Option Finding :=
  a.fault.bind fun f =>
    if env.registry.contains Issue.lintError then
      match env.config.check Issue.lintError env.view.tree none with
      | .keep severity =>
          some { Finding.new Issue.lintError (env.view.tree.location Tree.root)
            (failureMessage a.caller.name f) with severity }
      | .drop _ => none
    else none

def findings : List Finding :=
  a.desk.reports.filterMap (UnitState.kept env a.caller.index) ++ (a.notice env).toList

def failures : List Failure :=
  a.desk.reports.filterMap (UnitState.complaint env a.caller.name) ++ (a.breakdown env).toList

end Answer

def faultOf : Except Fault Unit → Option Fault
  | .ok _ => none
  | .error f => some f

def answer (env : Env W) (d : Nat) (detector : Detector W S) (e : Event) (s : Session W S) :
    Answer W S :=
  let caller : Caller := { index := d, name := detector.name, known := s.unit.facts }
  let outcome := ((detector.on e).run (env, caller)).run (desk d s)
  { caller, event := e, fault := faultOf outcome.1, desk := outcome.2 }

def enter (env : Env W) (s : Session W S) (a : Answer W S) : Session W S where
  unit :=
    let unit := s.unit.collect env a.caller a.desk
    match a.fault with
    | none => unit
    | some f => fail env a.caller.index a.caller.name f unit
  world := a.desk.world

theorem call_eq_enter (env : Env W) (d : Nat) (detector : Detector W S) (e : Event)
    (s : Session W S) : call env d detector e s = enter env s (answer env d detector e s) := by
  rw [call, enter, answer]
  simp only
  generalize ((detector.on e).run _).run (desk d s) = outcome
  obtain ⟨result, desk⟩ := outcome
  cases result <;> rfl

def answers (env : Env W) (detectors : List (Detector W S)) (active : List Bool) :
    List Step → Session W S → List (Answer W S)
  | [], _ => []
  | .poll :: steps, s => if s.world.cancelled then [] else answers env detectors active steps s
  | .deliver d e :: steps, s =>
    match active.getD d false, detectors[d]? with
    | true, some detector =>
      if s.unit.disabled.contains d then answers env detectors active steps s
      else
        let a := answer env d detector e s
        a :: answers env detectors active steps (enter env s a)
    | _, _ => answers env detectors active steps s

section

variable (env : Env W) (r : Registration W S) (active : List Bool)

def listeners : List Nat :=
  (r.tables env.view.tree.phase).participants.filter fun d => active.getD d false

/-- What they are told, as long as they do not fail. -/
def agenda : List Step :=
  (⟨env.view, r.tables env.view.tree.phase⟩ : Walk).schedule (listeners env r active)

theorem run_eq (world : World W) :
    run env r active world =
      if (listeners env r active).isEmpty then (true, { world })
      else follow env r.detectors active (agenda env r active) { world } := rfl

def record (world : World W) : List (Answer W S) :=
  if (listeners env r active).isEmpty then []
  else answers env r.detectors active (agenda env r active) { world }

end

theorem follow_eq_foldl (env : Env W) (detectors : List (Detector W S)) (active : List Bool)
    (steps : List Step) (s : Session W S) :
    (follow env detectors active steps s).2 =
      (answers env detectors active steps s).foldl (enter env) s := by
  fun_induction answers env detectors active steps s with
  | case1 s => rfl
  | case2 steps s hcancelled => rw [follow, if_pos hcancelled, List.foldl_nil]
  | case3 steps s hcancelled ih => rw [follow, if_neg hcancelled, ih]
  | case4 d e steps s detector hdetector hactive hdisabled ih =>
      rw [follow, hactive, hdetector]
      simp only [deliver, if_pos hdisabled, ih]
  | case5 d e steps s detector hdetector hactive hdisabled a ih =>
      rw [follow, hactive, hdetector]
      simp only [deliver, if_neg hdisabled, call_eq_enter, List.foldl_cons]
      exact ih
  | case6 d e steps s hnone ih =>
      rw [follow]
      split
      · exact (hnone _ ‹_› ‹_›).elim
      · exact ih

theorem run_eq_foldl (env : Env W) (r : Registration W S) (active : List Bool) (world : World W) :
    (run env r active world).2 = (record env r active world).foldl (enter env) { world } := by
  rw [run_eq, record]
  split
  · rfl
  · exact follow_eq_foldl ..

/-! ### One answer -/

section

variable (env : Env W) (s : Session W S) (a : Answer W S)

theorem findings_enter : (enter env s a).unit.findings = s.unit.findings ++ a.findings env := by
  rw [enter, Answer.findings, Answer.notice]
  cases a.fault with
  | none => simp [UnitState.findings_collect]
  | some f =>
      simp only [fail, UnitState.commit, Option.bind_some, Finding.new]
      split
      · split <;> simp_all [UnitState.findings_collect]
      · simp [UnitState.findings_collect]

theorem failures_enter : (enter env s a).unit.failures = s.unit.failures ++ a.failures env := by
  rw [enter, Answer.failures, Answer.breakdown]
  cases a.fault with
  | none => simp [UnitState.failures_collect]
  | some f =>
      simp only [fail, UnitState.commit]
      split
      · split <;> simp [UnitState.failures_collect]
      · simp [UnitState.failures_collect]

theorem slots_enter (d : Nat) :
    (enter env s a).unit.slots.lookup d =
      if d = a.caller.index then a.desk.slot.or (s.unit.slots.lookup d)
      else s.unit.slots.lookup d := by
  rw [enter, ← UnitState.slots_collect]
  cases a.fault with
  | none => rfl
  | some f =>
      simp only [fail, UnitState.commit]
      split
      · split <;> rfl
      · rfl

theorem disabled_enter :
    (enter env s a).unit.disabled =
      if a.fault.isSome then a.caller.index :: s.unit.disabled else s.unit.disabled := by
  rw [enter]
  cases a.fault with
  | none => exact disabled_collect ..
  | some f =>
      simp only [fail, UnitState.commit, disabled_collect]
      split
      · split <;> rfl
      · rfl

end

/-! ### All answers of a unit -/

section

variable (env : Env W)

theorem findings_foldl_enter (log : List (Answer W S)) (s : Session W S) :
    (log.foldl (enter env) s).unit.findings =
      s.unit.findings ++ log.flatMap (Answer.findings env) := by
  induction log generalizing s with
  | nil => simp
  | cons a log ih => simp [ih, findings_enter]

theorem failures_foldl_enter (log : List (Answer W S)) (s : Session W S) :
    (log.foldl (enter env) s).unit.failures =
      s.unit.failures ++ log.flatMap (Answer.failures env) := by
  induction log generalizing s with
  | nil => simp
  | cons a log ih => simp [ih, failures_enter]

theorem mem_disabled_foldl_enter {d : Nat} (log : List (Answer W S)) (s : Session W S) :
    d ∈ (log.foldl (enter env) s).unit.disabled ↔
      d ∈ s.unit.disabled ∨ ∃ a ∈ log, a.caller.index = d ∧ a.fault.isSome = true := by
  induction log generalizing s with
  | nil => simp
  | cons a log ih =>
      rw [List.foldl_cons, ih, disabled_enter]
      constructor
      · rintro (hd | ⟨b, hb, hbd⟩)
        · split at hd
          · rename_i hfault
            rcases List.mem_cons.mp hd with rfl | hd
            · exact .inr ⟨a, List.mem_cons_self, rfl, hfault⟩
            · exact .inl hd
          · exact .inl hd
        · exact .inr ⟨b, List.mem_cons_of_mem _ hb, hbd⟩
      · rintro (hd | ⟨b, hb, hbd, hfault⟩)
        · refine .inl ?_
          split
          · exact List.mem_cons_of_mem _ hd
          · exact hd
        · rcases List.mem_cons.mp hb with rfl | hb
          · rw [if_pos hfault, hbd]
            exact .inl List.mem_cons_self
          · exact .inr ⟨b, hb, hbd, hfault⟩

variable (detectors : List (Detector W S)) (active : List Bool)

/-- Only detectors that have not failed answer. -/
theorem not_mem_disabled_of_mem_answers {steps : List Step} {s : Session W S} {a : Answer W S}
    (h : a ∈ answers env detectors active steps s) : a.caller.index ∉ s.unit.disabled := by
  fun_induction answers env detectors active steps s with
  | case1 | case2 => cases h
  | case3 steps s _ ih => exact ih h
  | case4 d e steps s detector _ _ _ ih => exact ih h
  | case5 d e steps s detector _ _ hnot b ih =>
      rcases List.mem_cons.mp h with rfl | h
      · rwa [List.contains_iff_mem] at hnot
      · intro hd
        refine ih h ?_
        rw [disabled_enter]
        split
        · exact List.mem_cons_of_mem _ hd
        · exact hd
  | case6 d e steps s _ ih => exact ih h

/-- After its first fault a detector gives no answer. -/
theorem pairwise_answers (steps : List Step) (s : Session W S) :
    (answers env detectors active steps s).Pairwise fun a b =>
      a.caller.index = b.caller.index → a.fault = none := by
  fun_induction answers env detectors active steps s with
  | case1 | case2 => exact List.Pairwise.nil
  | case3 steps s _ ih => exact ih
  | case4 d e steps s detector _ _ _ ih => exact ih
  | case5 d e steps s detector _ _ _ a ih =>
      refine List.pairwise_cons.mpr ⟨fun b hb hab => ?_, ih⟩
      have hfine := not_mem_disabled_of_mem_answers env detectors active hb
      rw [disabled_enter, ← hab] at hfine
      by_contra hfault
      rw [if_pos (Option.isSome_iff_ne_none.mpr hfault)] at hfine
      exact hfine List.mem_cons_self
  | case6 d e steps s _ ih => exact ih

end

/-! ### The answers of a run -/

section

variable (env : Env W) (r : Registration W S) (active : List Bool) (world : World W)

theorem pairwise_record :
    (record env r active world).Pairwise fun a b =>
      a.caller.index = b.caller.index → a.fault = none := by
  rw [record]
  split
  · exact List.Pairwise.nil
  · exact pairwise_answers ..

def isFaultOf (d : Nat) (a : Answer W S) : Bool := a.caller.index == d && a.fault.isSome

theorem countP_isFaultOf_le (d : Nat) : (record env r active world).countP (isFaultOf d) ≤ 1 := by
  have hpairwise :
      ((record env r active world).filter (isFaultOf d)).Pairwise fun _ _ => False := by
    refine List.pairwise_filter.mpr ((pairwise_record env r active world).imp ?_)
    intro a b hab ha hb
    obtain ⟨had, hfault⟩ := Bool.and_eq_true_iff.mp ha
    obtain ⟨hbd, -⟩ := Bool.and_eq_true_iff.mp hb
    have hsame : a.caller.index = b.caller.index :=
      (beq_iff_eq.mp had).trans (beq_iff_eq.mp hbd).symm
    rw [hab hsame] at hfault
    cases hfault
  rw [List.countP_eq_length_filter]
  generalize (record env r active world).filter (isFaultOf d) = faults at hpairwise
  match faults with
  | [] => exact Nat.zero_le _
  | [_] => exact Nat.le_refl _
  | a :: b :: _ => exact ((List.pairwise_cons.mp hpairwise).1 b List.mem_cons_self).elim

/-- A detector that is left out at the end has failed once, and any other has
not failed. -/
theorem countP_isFaultOf (d : Nat) :
    (record env r active world).countP (isFaultOf d) =
      if d ∈ (run env r active world).2.unit.disabled then 1 else 0 := by
  have hiff : d ∈ (run env r active world).2.unit.disabled ↔
      0 < (record env r active world).countP (isFaultOf d) := by
    rw [run_eq_foldl, mem_disabled_foldl_enter, List.countP_pos_iff]
    simp [isFaultOf]
  have hle := countP_isFaultOf_le env r active world d
  split
  · rename_i hd
    have := hiff.mp hd
    omega
  · rename_i hd
    have := mt hiff.mpr hd
    omega

end

end Unit

end LintEngine
