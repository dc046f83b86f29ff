import LintEngine.Engine.Run
import Mathlib.Data.List.Forall2

/-!
What becomes of the findings of the units.

When all units have been seen, each finding is settled, and there are three
fates: it goes to the sink, it is dropped and counted, or its detector crashes
and a failure is recorded in its place. What a sink holds in the end follows
from the list of fates.
-/

namespace LintEngine

variable {W S : Type}

inductive Fate where
  | handedOn (f : Finding)
  | dropped
  | crashed (f : Failure)

namespace Fate

def finding? : Fate → Option Finding
  | handedOn f => some f
  | dropped | crashed _ => none

def failure? : Fate → Option Failure
  | crashed f => some f
  | handedOn _ | dropped => none

def isDropped : Fate → Bool
  | dropped => true
  | handedOn _ | crashed _ => false

theorem length_eq (fates : List Fate) :
    fates.length = (fates.filterMap finding?).length + fates.countP isDropped +
      (fates.filterMap failure?).length := by
  induction fates with
  | nil => rfl
  | cons fate fates ih =>
      rw [List.length_cons, ih, List.filterMap_cons, List.countP_cons, List.filterMap_cons]
      cases fate <;> simp only [finding?, failure?, isDropped, List.length_cons] <;> grind

end Fate

namespace Sink

def note (sink : Sink) : Fate → Sink
  | .handedOn f => sink.accept f
  | .dropped => sink.addSuppressed 1
  | .crashed f => sink.recordFailure f

theorem foldl_note (fates : List Fate) (sink : Sink) :
    fates.foldl note sink =
      { sink with
        findings := sink.findings ++ fates.filterMap Fate.finding?
        failures := sink.failures ++ fates.filterMap Fate.failure?
        suppressed := sink.suppressed + fates.countP Fate.isDropped } := by
  induction fates generalizing sink with
  | nil => simp
  | cons fate fates ih =>
      rw [List.foldl_cons, ih, List.filterMap_cons, List.countP_cons, List.filterMap_cons]
      cases fate with
      | handedOn f => simp [note, accept, Fate.finding?, Fate.failure?, Fate.isDropped]
      | dropped =>
          simp [note, addSuppressed, Fate.finding?, Fate.failure?, Fate.isDropped, Nat.add_assoc,
            Nat.add_comm 1]
      | crashed f => simp [note, recordFailure, Fate.finding?, Fate.failure?, Fate.isDropped]

theorem foldl_recordFailure (fs : List Failure) (sink : Sink) :
    fs.foldl recordFailure sink = { sink with failures := sink.failures ++ fs } := by
  induction fs generalizing sink with
  | nil => simp
  | cons f fs ih => simp [ih, recordFailure]

theorem foldl_accept (fs : List Finding) (sink : Sink) :
    fs.foldl accept sink = { sink with findings := sink.findings ++ fs } := by
  induction fs generalizing sink with
  | nil => simp
  | cons f fs ih => simp [ih, accept]

end Sink

namespace Engine

variable (e : Engine W S)

/-! ### The engine's own findings -/

/-- The findings of the engine itself: one for each file that is no unit, and one
if API levels are missed. -/
def ownFindings (root : Path) (unparsed : List Unparsed) : List Finding :=
  if e.reportsTrouble then
    unparsed.map (fun u => e.trouble (Location.fileStart u.path)
      ("analysis incomplete: " ++ u.error.message)) ++
      if e.excluded.contains true then [e.trouble (Location.project root) missingLevels] else []
  else []

theorem reportMissing_eq (root : Path) (unparsed : List Unparsed) :
    e.reportMissing root (e.reportUnparsed unparsed {}) =
      { findings := e.ownFindings root unparsed } := by
  have hunparsed (sink : Sink) : unparsed.foldl (fun sink u => sink.accept
        (e.trouble (Location.fileStart u.path) ("analysis incomplete: " ++ u.error.message))) sink =
      { sink with findings := sink.findings ++ unparsed.map (fun u =>
        e.trouble (Location.fileStart u.path) ("analysis incomplete: " ++ u.error.message)) } := by
    rw [← List.foldl_map (g := Sink.accept), Sink.foldl_accept]
  rw [reportMissing, reportUnparsed, ownFindings]
  cases e.reportsTrouble with
  | false => simp
  | true =>
      simp only [if_true, Bool.and_true, hunparsed]
      split <;> simp [Sink.accept]

/-! ### Settling -/

variable (facts : Facts)

def fate (f : Finding) (w : World W) : Fate × World W :=
  match f.data, f.detector.bind fun d => e.registration.detectors[d]? with
  | some _, some d =>
    match d.settle f facts w with
    | (.keep f, w) => (.handedOn f, w)
    | (.drop, w) => (.dropped, w)
    | (.crashed changed, w) =>
      let failure : Failure :=
        { detector := d.name
          file := (changed.getD f).location.file
          message := "panicked in deferred filter" }
      (.crashed failure, w)
  | _, _ => (.handedOn f, w)

theorem settle_eq (f : Finding) (sink : Sink) (w : World W) :
    e.settle facts f sink w = (sink.note (e.fate facts f w).1, (e.fate facts f w).2) := by
  rw [settle, fate]
  cases f.data with
  | none => rfl
  | some data =>
      cases f.detector.bind fun d => e.registration.detectors[d]? with
      | none => rfl
      | some x =>
          dsimp only
          rcases x.settle f facts w with ⟨verdict, w'⟩
          cases verdict <;> rfl

/-- A fate that a finding can have, if it is settled at some moment. -/
def IsFate (f : Finding) (fate : Fate) : Prop := ∃ w, (e.fate facts f w).1 = fate

/-- A finding that is handed on stands as it was, or its detector has kept it. -/
theorem eq_or_settle_of_isFate {f g : Finding} (h : e.IsFate facts f (.handedOn g)) :
    g = f ∨ ∃ x ∈ e.registration.detectors, ∃ w, (x.settle f facts w).1 = .keep g := by
  obtain ⟨w, h⟩ := h
  rw [fate] at h
  split at h
  · rename_i x _ hx
    obtain ⟨d, -, hd⟩ := Option.bind_eq_some_iff.mp hx
    refine .inr ⟨x, List.mem_of_getElem? hd, w, ?_⟩
    split at h
    · rename_i hkeep
      cases h
      rw [hkeep]
    · cases h
    · cases h
  · cases h
    exact .inl rfl

/-- Settling findings one after the other gives each of them a fate. -/
theorem foldl_settle (fs : List Finding) (sink : Sink) (w : World W) :
    ∃ fates, List.Forall₂ (e.IsFate facts) fs fates ∧
      (fs.foldl (fun (sink, world) f => e.settle facts f sink world) (sink, w)).1 =
        fates.foldl Sink.note sink := by
  induction fs generalizing sink w with
  | nil => exact ⟨[], .nil, rfl⟩
  | cons f fs ih =>
      obtain ⟨fates, hfates, hfold⟩ := ih (sink.note (e.fate facts f w).1) (e.fate facts f w).2
      refine ⟨(e.fate facts f w).1 :: fates, .cons ⟨w, rfl⟩ hfates, ?_⟩
      rw [List.foldl_cons, List.foldl_cons, ← hfold]
      dsimp only
      rw [settle_eq]

end Engine

end LintEngine
