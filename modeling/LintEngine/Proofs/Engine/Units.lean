import LintEngine.Proofs.Engine.Unit
import LintEngine.Proofs.Rules.TwoRuns

/-!
The units of a run under two settings that differ in what they say of one
issue.

Told the same, the detectors keep the two sides in step: the findings of all
other issues are the same, and so are the facts that have nothing to do with the
issue. A detector that runs on one side only has no other issue to report, and
records no other fact.
-/

namespace LintEngine

namespace Unit

open Rules

variable {W S : Type} {x : String}

structure IsHandedIn (detector : Detector W S) (d : Nat) (f : Finding) : Prop where
  position : f.detector = some d
  issue : f.issue ∈ detector.issues
  provisional : f.issue = useStartIssue → IsProvisional f

/-- A unit that only the detectors of the rules have seen, none of which has
failed. -/
structure IsTidy (W : Type) (u : UnitState S) : Prop where
  handedIn : ∀ f ∈ u.findings, ∃ d, ∃ detector : Detector W S,
    builtinDetectors[d]? = some detector ∧ IsHandedIn detector d f
  steady : u.disabled = []

structure UnitsAgree (x : String) (u u' : UnitState S) : Prop where
  findings : u.findings.filter (·.issue.id != x) = u'.findings.filter (·.issue.id != x)
  facts : ∀ key, factIssue key ≠ x → u.facts.get? key = u'.facts.get? key

theorem UnitsAgree.symm {u u' : UnitState S} (h : UnitsAgree x u u') : UnitsAgree x u' u :=
  ⟨h.findings.symm, fun key hkey => (h.facts key hkey).symm⟩

theorem UnitsAgree.trans {u u' u'' : UnitState S} (h : UnitsAgree x u u')
    (h' : UnitsAgree x u' u'') : UnitsAgree x u u'' :=
  ⟨h.findings.trans h'.findings, fun key hkey => (h.facts key hkey).trans (h'.facts key hkey)⟩

/-! ### A call -/

section

variable {env env' : Env W} {detector : Detector W S} {d : Nat} {e : Event} {s s' : Session W S}
  {after after' : World W} {reports reports' : List Finding} {recorded : Data}

theorem call_telling (d : Nat) (h : Telling detector env e s.world after reports recorded) :
    call env d detector e s =
      { unit := s.unit.collect env { index := d, name := detector.name, known := s.unit.facts }
          { desk d s with world := after, reports, recorded }
        world := after } := by
  rw [call]
  have hrun := h.does { index := d, name := detector.name, known := s.unit.facts } (desk d s) rfl
  simp only [hrun]
  rfl

theorem call_isTidy (h : Telling detector env e s.world after reports recorded)
    (hd : builtinDetectors[d]? = some detector) (hs : IsTidy W s.unit) :
    IsTidy W (call env d detector e s).unit := by
  rw [call_telling d h]
  refine ⟨fun f hf => ?_, (disabled_collect ..).trans hs.steady⟩
  rw [UnitState.findings_collect] at hf
  rcases List.mem_append.mp hf with hf | hf
  · exact hs.handedIn f hf
  · obtain ⟨g, hg, hkept⟩ := List.mem_filterMap.mp hf
    obtain ⟨severity, rfl⟩ := UnitState.issue_kept hkept
    refine ⟨d, detector, hd, rfl, h.issues g hg, fun hissue => ?_⟩
    have hprovisional := h.provisional g hg hissue
    exact ⟨hprovisional.issue, hprovisional.merge, hprovisional.shape⟩

/-- A finding of another issue is kept on both sides or on none. -/
theorem kept_eq (henv : EnvsAgree x env env') {f : Finding} (hf : f.issue.id ≠ x) :
    UnitState.kept env d f = UnitState.kept env' d f := by
  rw [UnitState.kept, UnitState.kept, henv.registry, henv.view, henv.config.check hf]

theorem call_agree (henv : EnvsAgree x env env')
    (h : Telling detector env e s.world after reports recorded)
    (h' : Telling detector env' e s'.world after' reports' recorded)
    (hreports : reports.filter (·.issue.id != x) = reports'.filter (·.issue.id != x))
    (hs : UnitsAgree x s.unit s'.unit) :
    UnitsAgree x (call env d detector e s).unit (call env' d detector e s').unit := by
  rw [call_telling d h, call_telling d h']
  constructor
  · simp only [UnitState.findings_collect, List.filter_append, UnitState.filter_filterMap_kept]
    rw [hs.findings, hreports]
    refine congrArg (_ ++ ·) (List.filterMap_congr fun f hf => ?_)
    exact kept_eq henv (by simpa using (List.mem_filter.mp hf).2)
  · intro key hkey
    simp only [UnitState.facts_collect]
    rw [hs.facts key hkey]

/-! ### A call on one side only -/

/-- A detector all of whose findings and facts are due to one issue. -/
structure Confined (x : String) (env : Env W) (detector : Detector W S) : Prop where
  silent : ∀ i ∈ detector.issues, i.id ≠ x → env.config.isReportable i = false
  facts : ∀ i ∈ detector.issues, ∀ key, i.id = factIssue key → factIssue key = x

theorem kept_of_silent {f : Finding} (h : env.config.isReportable f.issue = false) :
    UnitState.kept env d f = none := by
  obtain ⟨reason, hreason⟩ := Config.check_of_not_isReportable h env.view.tree f.anchor
  rw [UnitState.kept, hreason]
  split <;> rfl

theorem call_confined (hconfined : Confined x env detector)
    (h : Telling detector env e s.world after reports recorded) :
    UnitsAgree x (call env d detector e s).unit s.unit := by
  rw [call_telling d h]
  constructor
  · have hnone : (reports.filter (·.issue.id != x)).filterMap (UnitState.kept env d) = [] := by
      refine List.filterMap_eq_nil_iff.mpr fun f hf => kept_of_silent ?_
      obtain ⟨hf, hx⟩ := List.mem_filter.mp hf
      exact hconfined.silent _ (h.issues f hf) (by simpa using hx)
    simp only [UnitState.findings_collect, List.filter_append, UnitState.filter_filterMap_kept]
    rw [hnone, List.append_nil]
  · intro key hkey
    have hnone : recorded.lookup key = none := by
      refine List.lookup_eq_none_iff.mpr fun fact hfact => ?_
      obtain ⟨i, hi, hid⟩ := h.owned fact hfact
      simp only [bne_iff_ne]
      rintro rfl
      exact hkey (hconfined.facts i hi _ hid)
    simp only [UnitState.facts_collect]
    rw [hnone, Option.or_none]

theorem world_confined (hconfined : Confined x env detector)
    (h : Telling detector env e s.world after reports recorded) : WorldsAgree x after s.world := by
  refine ⟨h.alive, ?_⟩
  rcases h.quiet with hquiet | ⟨hnewer, hreportable⟩
  · exact .inr hquiet
  · refine .inl (Classical.byContradiction fun hx => ?_)
    have hsilent := hconfined.silent _ hnewer fun heq => hx heq.symm
    exact Bool.false_ne_true (hsilent.symm.trans hreportable)

end

/-! ### A schedule on both sides -/

def LookupsKeepAlive (env : Env W) : Prop := ∀ lookup, env.lookup = some lookup → KeepsAlive lookup

theorem builtin_telling {detector : Detector W S} (hd : detector ∈ builtinDetectors) {env : Env W}
    (henv : LookupsKeepAlive env) (e : Event) (w : World W) :
    ∃ after reports recorded, Telling detector env e w after reports recorded := by
  obtain ⟨reports, -, recorded, after, -, htelling, -⟩ :=
    builtin_twins "" hd e env env (.refl _ env) henv w w (.refl _ w)
  exact ⟨after, reports, recorded, htelling⟩

structure SessionsAgree (x : String) (s s' : Session W S) : Prop where
  unit : UnitsAgree x s.unit s'.unit
  world : WorldsAgree x s.world s'.world
  tidy : IsTidy W s.unit
  tidy' : IsTidy W s'.unit

theorem SessionsAgree.symm {s s' : Session W S} (h : SessionsAgree x s s') :
    SessionsAgree x s' s :=
  ⟨h.unit.symm, h.world.symm, h.tidy', h.tidy⟩

/-- Detectors that run on one side only are confined to one issue there. -/
def ActiveAgree (x : String) (env env' : Env W) (active active' : List Bool) : Prop :=
  ∀ d, ∀ detector : Detector W S, builtinDetectors[d]? = some detector →
    active.getD d false = active'.getD d false ∨
    (active.getD d false = true ∧ Confined x env detector) ∨
    (active'.getD d false = true ∧ Confined x env' detector)

theorem deliver_of_isTidy {env : Env W} {d : Nat} {detector : Detector W S} {e : Event}
    {s : Session W S} (h : IsTidy W s.unit) :
    deliver env d detector e s = call env d detector e s := by
  rw [deliver, h.steady]
  rfl

section

variable {env env' : Env W} {detector : Detector W S} {d : Nat} (e : Event) {s s' : Session W S}

theorem deliver_agree (henv : EnvsAgree x env env') (halive : LookupsKeepAlive env)
    (hd : builtinDetectors[d]? = some detector) (hs : SessionsAgree x s s') :
    SessionsAgree x (deliver env d detector e s) (deliver env' d detector e s') := by
  obtain ⟨reports, reports', recorded, after, after', htelling, htelling', hreports, hworld⟩ :=
    builtin_twins x (List.mem_of_getElem? hd) e env env' henv halive s.world s'.world hs.world
  rw [deliver_of_isTidy hs.tidy, deliver_of_isTidy hs.tidy']
  refine ⟨call_agree henv htelling htelling' hreports hs.unit, ?_, call_isTidy htelling hd hs.tidy,
    call_isTidy htelling' hd hs.tidy'⟩
  rw [call_telling d htelling, call_telling d htelling']
  exact hworld

theorem deliver_confined (halive : LookupsKeepAlive env)
    (hd : builtinDetectors[d]? = some detector) (hconfined : Confined x env detector)
    (hs : SessionsAgree x s s') : SessionsAgree x (deliver env d detector e s) s' := by
  obtain ⟨after, reports, recorded, htelling⟩ :=
    builtin_telling (List.mem_of_getElem? hd) halive e s.world
  rw [deliver_of_isTidy hs.tidy]
  refine ⟨(call_confined hconfined htelling).trans hs.unit, ?_, call_isTidy htelling hd hs.tidy,
    hs.tidy'⟩
  rw [call_telling d htelling]
  exact (world_confined hconfined htelling).trans hs.world

end

/-- Following a schedule keeps two sides in step. -/
theorem follow_agree {env env' : Env W} {active active' : List Bool} (henv : EnvsAgree x env env')
    (halive : LookupsKeepAlive env) (hactive : ActiveAgree (S := S) x env env' active active')
    (steps : List Step) {s s' : Session W S} (hs : SessionsAgree x s s') :
    (follow env builtinDetectors active steps s).1 =
        (follow env' builtinDetectors active' steps s').1 ∧
      SessionsAgree x (follow env builtinDetectors active steps s).2
        (follow env' builtinDetectors active' steps s').2 := by
  -- both sides use the same lookup, so the argument is symmetric in them
  have halive' : LookupsKeepAlive env' := by
    rw [LookupsKeepAlive, ← henv.lookup]
    exact halive
  induction steps generalizing s s' with
  | nil => exact ⟨rfl, hs⟩
  | cons step steps ih =>
      cases step with
      | poll =>
          rw [follow, follow, hs.world.1]
          split
          · exact ⟨rfl, hs⟩
          · exact ih hs
      | deliver d e =>
          rw [follow, follow]
          cases hd : (builtinDetectors[d]? : Option (Detector W S)) with
          | none =>
              cases active.getD d false <;> cases active'.getD d false <;> exact ih hs
          | some detector =>
              -- told on neither side, on one of them, or on both
              cases ha : active.getD d false <;> cases ha' : active'.getD d false
              · exact ih hs
              · have hconfined := hactive d detector hd
                rw [ha, ha'] at hconfined
                simp only [Bool.false_eq_true, false_and, false_or, true_and] at hconfined
                exact ih (deliver_confined e halive' hd hconfined hs.symm).symm
              · have hconfined := hactive d detector hd
                rw [ha, ha'] at hconfined
                simp only [Bool.true_eq_false, Bool.false_eq_true, false_and, or_false, false_or,
                  true_and] at hconfined
                exact ih (deliver_confined e halive hd hconfined hs)
              · exact ih (deliver_agree e henv halive hd hs)

end Unit

end LintEngine
