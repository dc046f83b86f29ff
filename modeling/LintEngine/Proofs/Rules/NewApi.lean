import LintEngine.Proofs.Engine.Independence
import LintEngine.Proofs.Engine.Reporters
import LintEngine.Proofs.Engine.Legitimacy
import LintEngine.Proofs.Rules.Effects

/-!
New parts of the platform, from the walk to the sink.

Whether a use is too new depends on the oldest platform supported, and that is
known only when all units have been seen. So a use is reported on the walk with
the level that it needs, unless the settings alone rule it out, and settled
later. The outcome is one comparison with one minimum: uses that were ruled out
early would have been dropped later, whatever the order of the units.
-/

namespace LintEngine

variable {W S : Type}

/-! ### Texts with a mark -/

/-- What stands before the first character of the piece is left alone. -/
theorem Text.replaceChars_append {c : Char} {piece new cs : List Char} (h : c ∉ cs)
    (rest : List Char) :
    replaceChars (c :: piece) new 0 (cs ++ rest) = cs ++ replaceChars (c :: piece) new 0 rest := by
  induction cs with
  | nil => rfl
  | cons x cs ih =>
      obtain ⟨hx, hcs⟩ := not_or.mp (mt List.mem_cons.mpr h)
      rw [List.cons_append, replaceChars, ih hcs, List.isPrefixOf_cons_cons, beq_false_of_ne hx]
      rfl

/-- A finding that can be reported is kept unless it is suppressed at its node. -/
theorem Config.check_some {c : Config} {i : Issue} (h : c.isReportable i = true) (t : Tree)
    (n : NodeId) :
    c.check i t (some n) =
      match c.suppressionAt i t n with
      | some s => .drop (.suppressed s)
      | none => .keep (c.severityFor i) := by
  rw [isReportable, Bool.and_eq_true] at h
  obtain ⟨hignore, hfatal⟩ := h
  have hshown : (c.fatalOnly && c.severityFor i != .fatal) = false := by
    cases honly : c.fatalOnly with
    | false => rfl
    | true => simpa [honly] using hfatal
  rw [check, hshown, if_neg (by simpa using hignore)]
  rfl

/-! ### Accepted detectors -/

namespace Registration

theorem contains_of_checkAll {registry : Registry} {names : List String}
    {detectors : List (Detector W S)} (h : checkAll registry names detectors = .ok ())
    {x : Detector W S} (hx : x ∈ detectors) {i : Issue} (hi : i ∈ x.issues) :
    registry.contains i = true := by
  induction detectors generalizing names with
  | nil => cases hx
  | cons d ds ih =>
      rw [checkAll] at h
      split at h
      · cases h
      · rename_i hnone
        rcases List.mem_cons.mp hx with rfl | hx
        · rw [objection?] at hnone
          split at hnone
          · cases hnone
          · split at hnone
            · cases hnone
            · rename_i hfind
              simpa using List.find?_eq_none.mp hfind i hi
        · exact ih h hx

/-- The issues of an accepted detector are registered. -/
theorem contains_of_ofDetectors {registry : Registry} {detectors : List (Detector W S)}
    {r : Registration W S} (h : ofDetectors registry detectors = .ok r) {x : Detector W S}
    (hx : x ∈ detectors) {i : Issue} (hi : i ∈ x.issues) : registry.contains i = true := by
  rw [ofDetectors] at h
  cases hc : checkAll registry [] detectors with
  | error e =>
      rw [hc] at h
      cases h
  | ok u => exact contains_of_checkAll hc hx hi

end Registration

namespace Rules

open Registration

/-! ### One use -/

section

variable (env : Env W) (k minimum : Nat)

/-- What is handed on of the use of the platform at a node, if the detector
stands in position `k`: a finding that names the oldest platform supported,
unless that one is new enough, or a condition or an annotation around the node
vouches for the level, or the finding is not wanted there. -/
def settledUse (n : NodeId) : Option Finding :=
  match env.levels.bind (requirement env.view · n) with
  | none => none
  | some (level, message) =>
    if level ≤ guaranteedLevel env.view n ∨ level ≤ minimum then none
    else match env.config.check newApiIssue env.view.tree (some n) with
      | .keep severity => some
          { Task.findingAt env.view newApiIssue n
              (Text.replace minimumMark (toString minimum) message) with
            data := some [(requiredLevelKey, .int level)]
            detector := some k
            severity }
      | .drop _ => none

def settledBy (f : Finding) : Option Finding :=
  match f.data.bind (·.int? requiredLevelKey) with
  | none => some f
  | some level =>
    if level ≤ minimum then none
    else some { f with message := Text.replace minimumMark (toString minimum) f.message }

end

variable {env : Env W} {k minimum : Nat} {n : NodeId}

/-- If a minimum in the settings is the minimum of the project, it makes no
difference that uses are checked against it on the walk already. -/
theorem filterMap_newUses (hregistered : env.registry.contains newApiIssue = true)
    (hminimum : ∀ m ∈ env.config.minSdk, m = minimum) :
    ((newUses env.view env.levels env.config.minSdk n).filterMap (UnitState.kept env k)).filterMap
      (settledBy minimum) = (settledUse env k minimum n).toList := by
  rw [newUses, settledUse]
  cases env.levels.bind (requirement env.view · n) with
  | none => rfl
  | some use =>
      obtain ⟨level, message⟩ := use
      dsimp only
      by_cases hguard : level ≤ guaranteedLevel env.view n
      · rw [if_pos (.inl hguard), if_pos (.inl hguard)]
        rfl
      · by_cases hearly : env.config.minSdk.any (level ≤ ·) = true
        · -- ruled out by the settings, and so by the minimum of the project
          obtain ⟨m, hm, hlevel⟩ := (Option.any_eq_true ..).mp hearly
          have hle : level ≤ minimum := hminimum m hm ▸ of_decide_eq_true hlevel
          rw [if_pos (.inr hearly), if_pos (.inr hle)]
          rfl
        · have hkept : UnitState.kept env k { Task.findingAt env.view newApiIssue n message with
              data := some [(requiredLevelKey, .int level)] } =
              match env.config.check newApiIssue env.view.tree (some n) with
              | .keep severity => some { Task.findingAt env.view newApiIssue n message with
                  data := some [(requiredLevelKey, .int level)]
                  detector := some k
                  severity }
              | .drop _ => none := if_pos hregistered
          rw [if_neg (not_or.mpr ⟨hguard, hearly⟩), List.filterMap_cons, hkept]
          cases env.config.check newApiIssue env.view.tree (some n) with
          | drop reason =>
              dsimp only
              rw [ite_self]
              rfl
          | keep severity =>
              dsimp only
              rw [List.filterMap_nil, List.filterMap_cons, List.filterMap_nil, settledBy]
              by_cases hle : level ≤ minimum
              · rw [if_pos (.inr hle)]
                simp [Data.int?, hle]
              · rw [if_neg (not_or.mpr ⟨hguard, hle⟩)]
                simp [Data.int?, hle, Task.findingAt, Finding.new]

/-- A use stands at a call, a creation or a selection. -/
theorem kind_of_requirement {v : View} {levels : Option ApiLevels} {use : Nat × String}
    (h : levels.bind (requirement v · n) = some use) :
    v.tree.kind n = .call ∨ v.tree.kind n = .new ∨ v.tree.kind n = .select := by
  obtain ⟨levels, -, h⟩ := Option.bind_eq_some_iff.mp h
  rw [requirement] at h
  split at h
  · exact .inl ‹_›
  · exact .inr (.inl ‹_›)
  · exact .inr (.inr ‹_›)
  · cases h

theorem exists_requirementMessage {v : View} {levels : Option ApiLevels} {level : Nat}
    {message : String} (h : levels.bind (requirement v · n) = some (level, message)) :
    ∃ what ∈ ["Call", "Field"], ∃ subject, message = requirementMessage what level subject := by
  obtain ⟨levels, -, h⟩ := Option.bind_eq_some_iff.mp h
  rw [requirement] at h
  split at h
  · obtain ⟨m, -, h⟩ := Option.bind_eq_some_iff.mp h
    obtain ⟨owner, -, h⟩ := Option.bind_eq_some_iff.mp h
    obtain ⟨l, -, h⟩ := Option.bind_eq_some_iff.mp h
    cases h
    exact ⟨_, by simp, _, rfl⟩
  · obtain ⟨written, -, h⟩ := Option.bind_eq_some_iff.mp h
    split at h
    · cases h
    · obtain ⟨className, -, h⟩ := Option.bind_eq_some_iff.mp h
      obtain ⟨l, -, h⟩ := Option.bind_eq_some_iff.mp h
      cases h
      exact ⟨_, by simp, _, rfl⟩
  · obtain ⟨d, -, h⟩ := Option.bind_eq_some_iff.mp h
    split at h
    · obtain ⟨l, -, h⟩ := Option.bind_eq_some_iff.mp h
      cases h
      exact ⟨_, by simp, _, rfl⟩
    · cases h
  · cases h

/-- The mark in a message gives way to the minimum. -/
theorem replace_requirementMessage {what : String} (hwhat : '%' ∉ what.toList) (level : Nat)
    (subject new : String) :
    Text.replace minimumMark new (requirementMessage what level subject) =
      what ++ " requires API level " ++ toString level ++ " (current min is " ++ new ++
        Text.replace minimumMark new ("): `" ++ subject ++ "`") := by
  have hlevel : '%' ∉ (toString level).toList := by
    intro hmem
    rw [Nat.toString_eq_repr, Nat.toList_repr] at hmem
    exact absurd (Nat.isDigit_of_mem_toDigits (by decide) (by decide) hmem) (by decide)
  have hlead : '%' ∉ (what ++ " requires API level " ++ toString level ++
      " (current min is ").toList := by
    simp only [String.toList_append, List.mem_append, not_or]
    exact ⟨⟨⟨hwhat, by decide⟩, hlevel⟩, by decide⟩
  have hmark : ∀ rest, Text.replaceChars ['%', 's'] new.toList 0 ('%' :: 's' :: rest) =
      new.toList ++ Text.replaceChars ['%', 's'] new.toList 0 rest := fun _ => rfl
  rw [Text.replace, Text.replace, requirementMessage, ← String.toList_inj]
  have hsplit : (what ++ " requires API level " ++ toString level ++ " (current min is " ++
      minimumMark ++ "): `" ++ subject ++ "`").toList =
      (what ++ " requires API level " ++ toString level ++ " (current min is ").toList ++
        '%' :: 's' :: ("): `" ++ subject ++ "`").toList := by
    simp only [String.toList_append, List.append_assoc]
    rfl
  rw [hsplit, show minimumMark.toList = ['%', 's'] from rfl, Text.replaceChars_append hlead, hmark]
  simp only [String.toList_append, String.toList_ofList, List.append_assoc]

/-- A finding that is handed on shows the level that is needed and the minimum. -/
theorem message_of_settledUse {f : Finding} (h : settledUse env k minimum n = some f) :
    ∃ (what : String) (level : Nat) (subject : String), f.message = what ++
      " requires API level " ++ toString level ++ " (current min is " ++ toString minimum ++
        subject := by
  rw [settledUse] at h
  split at h
  · cases h
  · rename_i level message huse
    obtain ⟨what, hwhat, subject, rfl⟩ := exists_requirementMessage huse
    split at h
    · cases h
    · split at h
      · cases h
        have hplain : '%' ∉ what.toList :=
          (by decide : ∀ what ∈ ["Call", "Field"], '%' ∉ what.toList) what hwhat
        exact ⟨what, level, _, replace_requirementMessage hplain level subject (toString minimum)⟩
      · cases h

theorem anchor_of_settledUse {f : Finding} (h : settledUse env k minimum n = some f) :
    f.anchor = some n := by
  rw [settledUse] at h
  split at h
  · cases h
  · split at h
    · cases h
    · split at h
      · cases h
        rfl
      · cases h

/-! ### The detector -/

theorem newApiDetector_reports (env : Env W) :
    (newApiDetector : Detector W S).Reports env
      (Unit.onEntry (newUses env.view env.levels env.config.minSdk)) := by
  have hquiet : ∀ me (desk : Desk W S), ∃ desk',
      ((pure () : Task W S Unit).run (env, me)).run desk = (.ok (), desk') ∧
        desk'.reports = desk.reports ++ [] :=
    fun _ desk => ⟨desk, rfl, (List.append_nil _).symm⟩
  intro event me desk
  cases event with
  | enter n => exact ⟨_, checkRequirement_does env desk.world n me desk rfl, rfl⟩
  | element n =>
      obtain ⟨reports, recorded, hnone, -, hdoes⟩ := recordLevels_tells (S := S) (v := env.view) n
        fun _ => False
      obtain rfl : reports = [] := List.eq_nil_iff_forall_not_mem.mpr hnone
      exact ⟨_, hdoes env rfl desk.world me desk rfl, rfl⟩
  | _ => exact hquiet me desk

theorem declares_newApi {detectors : List (Detector W S)} {phase : Phase} {kind : NodeKind}
    (hk : detectors[k]? = some newApiDetector) :
    declares detectors phase (.enter kind) k = true ↔
      phase = .source ∧ (kind = .call ∨ kind = .new ∨ kind = .select) := by
  rw [declares, hk, Option.any_some, List.contains_iff_mem]
  simp [newApiDetector, and_or_left]

end Rules

namespace Engine

open Registration Rules

variable {e : Engine W S} {k : Nat}

theorem runsOn_newApi {config : Config} {levels : Option ApiLevels} {scope : Scope} :
    runsOn config levels scope (newApiDetector : Detector W S) = true ↔
      newApiIssue.appliesTo scope = true ∧ config.isReportable newApiIssue = true ∧
        levels.isSome = true := by
  simp only [runsOn, isActive, newApiDetector, List.any_cons, List.any_nil, Bool.or_false,
    Bool.and_eq_true, Bool.not_eq_true', and_assoc]
  refine and_congr_right fun _ => and_congr_right fun hreportable => ?_
  rw [hreportable]
  cases levels <;> simp

theorem keptBy_newApi (facts : Facts) (f : Finding) (w : World W) :
    keptBy ((newApiDetector : Detector W S).settle f facts w).1 =
      settledBy (facts.minSdk.getD 1) f := by
  simp only [newApiDetector, settledBy]
  cases f.data.bind (·.int? requiredLevelKey) with
  | none => rfl
  | some level =>
      dsimp only
      split <;> rfl

theorem finding?_fate (facts : Facts) (f : Finding) (w : World W) :
    (e.fate facts f w).1.finding? = e.settled facts w f := by
  rw [fate, settled]
  cases f.data with
  | none => rfl
  | some data =>
      cases f.detector.bind fun d => e.registration.detectors[d]? with
      | none => rfl
      | some x =>
          dsimp only
          rcases x.settle f facts w with ⟨verdict, w'⟩
          cases verdict <;> rfl

/-- A finding of the detector has one fate, and it depends on the minimum
alone. -/
theorem finding?_of_isFate {facts : Facts} (hk : e.registration.detectors[k]? = some newApiDetector)
    {f : Finding} (hf : f.detector = some k) {fate : Fate} (h : e.IsFate facts f fate) :
    fate.finding? = settledBy (facts.minSdk.getD 1) f := by
  obtain ⟨w, rfl⟩ := h
  rw [finding?_fate, settled, hf, Option.bind_some, hk]
  cases hdata : f.data with
  | none => rw [settledBy, hdata, Option.bind_none]
  | some data => exact keptBy_newApi facts f w

/-! ### The minimum of a project -/

def levelOfFact : DataValue → Option Nat
  | .int level => Word.unsigned? 32 level
  | .bool _ | .str _ => none

theorem minSdk_eq (f : Facts) : f.minSdk = (f.get? Facts.minSdkKey).bind levelOfFact := by
  rw [Facts.minSdk, Data.int?, Facts.get?]
  rcases f.entries.lookup Facts.minSdkKey with _ | (_ | _ | _) <;> rfl

/-- The units fill the gaps of the facts, in their order. -/
theorem get?_foldl_merge (units : List (UnitState S)) (f : Facts) (key : String) :
    (units.foldl (fun f u => f.merge u.facts) f).get? key =
      (f.get? key).or (units.findSome? (·.facts.get? key)) := by
  induction units generalizing f with
  | nil => simp
  | cons u units ih =>
      rw [List.foldl_cons, ih, Facts.get?_merge, Option.or_assoc, List.findSome?_cons]
      cases u.facts.get? key <;> rfl

theorem minSdk_projectFacts (hfits : ∀ m ∈ e.config.minSdk, m < Word.size 32)
    (units : List (UnitState S)) :
    (e.projectFacts (units.map some)).minSdk.getD 1 =
      e.config.minSdk.getD
        (((units.findSome? (·.facts.get? Facts.minSdkKey)).bind levelOfFact).getD 1) := by
  have hunits : (units.map some).filterMap id = units := by simp [List.filterMap_map]
  rw [minSdk_eq, projectFacts, hunits, get?_foldl_merge]
  cases hmin : e.config.minSdk with
  | none => rfl
  | some m =>
      have hlevel : levelOfFact (.int m) = some m := by
        simp [levelOfFact, Word.unsigned?, hfits m hmin]
      simp [Facts.set, Facts.get?, hlevel]

namespace Course

variable {root : Path} {trees : List Tree} {unparsed : List Unparsed}
  (c : e.Course root trees unparsed)

/-- The oldest platform that the project supports: the minimum in the settings,
else the one recorded in the first completed unit that recorded any, else the
first. -/
def minimumLevel : Nat :=
  e.config.minSdk.getD
    (((c.completed.findSome? (·.unit.facts.get? Facts.minSdkKey)).bind levelOfFact).getD 1)

theorem minSdk_facts (hfits : ∀ m ∈ e.config.minSdk, m < Word.size 32) :
    c.facts.minSdk.getD 1 = c.minimumLevel := by
  have hunits : (c.completed.map fun d => some d.unit) =
      (c.completed.map Dossier.unit).map some := by
    rw [List.map_map]
    rfl
  rw [c.facts_eq, hunits, minSdk_projectFacts hfits, List.findSome?_map]
  rfl

/-- What becomes of the uses of the platform in a completed unit, if the detector
for them stands in position `k`. -/
structure SettlesUses (k : Nat) (d : Dossier W S) : Prop where
  /-- The findings, node by node, in units that the detector looks at. -/
  findings : d.handedOnBy k =
    if d.tree.phase = .source ∧ newApiIssue.appliesTo d.tree.scope = true then
      d.tree.ids.filterMap (settledUse (c.env d) k c.minimumLevel)
    else []
  /-- They go to the sink. -/
  handedOn : (d.handedOnBy k).Sublist d.handedOn
  /-- Each of them shows the minimum. -/
  message : ∀ f ∈ d.handedOnBy k, ∃ (what : String) (level : Nat) (subject : String),
    f.message = what ++ " requires API level " ++ toString level ++ " (current min is " ++
      toString c.minimumLevel ++ subject
  /-- One use, if findings can be reported. -/
  exists_iff : d.tree.phase = .source → newApiIssue.appliesTo d.tree.scope = true →
    e.config.isReportable newApiIssue = true → ∀ n level message,
    e.levels.bind (requirement (c.env d).view · n) = some (level, message) →
    ((∃ f ∈ d.handedOnBy k, f.anchor = some n) ↔
      guaranteedLevel (c.env d).view n < level ∧ c.minimumLevel < level ∧
        e.config.suppressionAt newApiIssue d.tree n = none)

variable {c}

theorem settledUse_eq_none_of_not_runsOn {d : Dossier W S} {minimum : Nat} {n : NodeId}
    (hscope : newApiIssue.appliesTo d.tree.scope = true)
    (h : runsOn e.config e.levels d.tree.scope (newApiDetector : Detector W S) = false) :
    settledUse (c.env d) k minimum n = none := by
  cases hlevels : e.levels with
  | none =>
      have hnone : (c.env d).levels = none := hlevels
      rw [settledUse, hnone]
      rfl
  | some levels =>
      have hreportable : ¬e.config.isReportable newApiIssue = true := by
        intro hreportable
        refine Bool.eq_false_iff.mp h (runsOn_newApi.mpr ⟨hscope, hreportable, ?_⟩)
        rw [hlevels]
        rfl
      rw [settledUse]
      split
      · rfl
      · split
        · rfl
        · split
          · rename_i hkeep
            exact absurd (Config.of_check_eq_keep hkeep).2 hreportable
          · rfl

/-- A node that the detector is not told of has no use, or none that counts. -/
theorem settledUse_eq_none {detectors : List (Detector W S)} {d : Dossier W S} {minimum : Nat}
    {n : NodeId} (hdetectors : e.registration.detectors = detectors)
    (hk : detectors[k]? = some newApiDetector) (hphase : d.tree.phase = .source)
    (hscope : newApiIssue.appliesTo d.tree.scope = true)
    (h : ¬(declares detectors d.tree.phase (.enter (d.tree.kind n)) k = true ∧
      (e.active d.tree.scope).getD k false = true)) :
    settledUse (c.env d) k minimum n = none := by
  cases huse : (c.env d).levels.bind (requirement (c.env d).view · n) with
  | none => rw [settledUse, huse]
  | some use =>
      have hdeclares := (declares_newApi hk).mpr ⟨hphase, kind_of_requirement huse⟩
      refine settledUse_eq_none_of_not_runsOn hscope (Bool.eq_false_iff.mpr fun hruns => ?_)
      refine h ⟨hdeclares, ?_⟩
      rw [active_getD, hdetectors, hk]
      exact hruns

theorem handedOnBy_newApi {detectors : List (Detector W S)}
    (hr : ofDetectors e.registry detectors = .ok e.registration)
    (hk : detectors[k]? = some newApiDetector) (hfits : ∀ m ∈ e.config.minSdk, m < Word.size 32)
    {d : Dossier W S} (hd : d ∈ c.completed) (hordered : d.tree.Ordered) :
    d.handedOnBy k =
      if d.tree.phase = .source ∧ newApiIssue.appliesTo d.tree.scope = true then
        d.tree.ids.filterMap (settledUse (c.env d) k c.minimumLevel)
      else [] := by
  obtain ⟨hdetectors, -⟩ := of_ofDetectors hr
  obtain ⟨w, s, -, hunit, hpasses⟩ := c.exists_passes hd
  have hregistered : e.registry.contains newApiIssue = true :=
    contains_of_ofDetectors hr (List.mem_of_getElem? hk) List.mem_cons_self
  have hminimum : ∀ m ∈ e.config.minSdk, m = c.minimumLevel := by
    intro m hm
    rw [minimumLevel, Option.mem_def.mp hm]
    rfl
  have hfates : ∀ f ∈ d.unit.findings, f.detector = some k → ∀ fate, e.IsFate c.facts f fate →
      fate.finding? = settledBy c.minimumLevel f := by
    intro f _ hf fate hfate
    rw [← c.minSdk_facts hfits]
    exact finding?_of_isFate (hdetectors ▸ hk) hf hfate
  rw [Dossier.handedOnBy_eq (c.settled d (mem_completed.mp hd)) hfates, hunit,
    hpasses.findings_of_reports hr hordered hk (newApiDetector_reports _), List.filterMap_flatMap]
  split
  · rename_i hlooks
    rw [List.filterMap_eq_flatMap_toList]
    refine List.flatMap_congr fun n _ => ?_
    split
    · exact filterMap_newUses hregistered hminimum
    · rename_i htold
      rw [settledUse_eq_none hdetectors hk hlooks.1 hlooks.2 htold]
      rfl
  · rename_i hlooks
    refine List.flatMap_eq_nil_iff.mpr fun n _ => ?_
    rw [if_neg, List.filterMap_nil]
    rintro ⟨hdeclares, hactive⟩
    rw [active_getD, hdetectors, hk] at hactive
    exact hlooks ⟨((declares_newApi hk).mp hdeclares).1, (runsOn_newApi.mp hactive).1⟩

/-- A use is handed on just if nothing speaks against it. -/
theorem settledUse_isSome_iff {d : Dossier W S} {minimum : Nat} {n : NodeId} {level : Nat}
    {message : String} (hreportable : e.config.isReportable newApiIssue = true)
    (huse : e.levels.bind (requirement (c.env d).view · n) = some (level, message)) :
    (settledUse (c.env d) k minimum n).isSome = true ↔
      guaranteedLevel (c.env d).view n < level ∧ minimum < level ∧
        e.config.suppressionAt newApiIssue d.tree n = none := by
  have huse : (c.env d).levels.bind (requirement (c.env d).view · n) = some (level, message) := huse
  have hcheck : (c.env d).config.check newApiIssue (c.env d).view.tree (some n) =
      match e.config.suppressionAt newApiIssue d.tree n with
      | some s => .drop (.suppressed s)
      | none => .keep (e.config.severityFor newApiIssue) := Config.check_some hreportable d.tree n
  rw [settledUse, huse]
  dsimp only
  split
  · rename_i hlow
    refine iff_of_false Bool.false_ne_true ?_
    omega
  · rename_i hhigh
    rw [hcheck]
    cases e.config.suppressionAt newApiIssue d.tree n with
    | none => simp; omega
    | some s => simp

theorem settlesUses {detectors : List (Detector W S)}
    (hr : ofDetectors e.registry detectors = .ok e.registration)
    (hk : detectors[k]? = some newApiDetector) (hfits : ∀ m ∈ e.config.minSdk, m < Word.size 32)
    {d : Dossier W S} (hd : d ∈ c.completed) (hordered : d.tree.Ordered) :
    c.SettlesUses k d := by
  have hfindings := handedOnBy_newApi hr hk hfits hd hordered
  refine ⟨hfindings, Dossier.handedOnBy_sublist (c.settled d (mem_completed.mp hd)) k, ?_, ?_⟩
  · intro f hf
    rw [hfindings] at hf
    split at hf
    · obtain ⟨n, -, hn⟩ := List.mem_filterMap.mp hf
      exact message_of_settledUse hn
    · cases hf
  · intro hphase hscope hreportable n level message huse
    rw [← settledUse_isSome_iff (k := k) hreportable huse, hfindings, if_pos ⟨hphase, hscope⟩]
    constructor
    · rintro ⟨f, hf, hanchor⟩
      obtain ⟨m, -, hm⟩ := List.mem_filterMap.mp hf
      obtain rfl : m = n := Option.some.inj ((anchor_of_settledUse hm).symm.trans hanchor)
      rw [hm]
      rfl
    · intro hsome
      obtain ⟨f, hf⟩ := Option.isSome_iff_exists.mp hsome
      refine ⟨f, List.mem_filterMap.mpr ⟨n, ?_, hf⟩, anchor_of_settledUse hf⟩
      refine List.mem_range.mpr (Tree.lt_size_of_kind fun hother => ?_)
      have hkind := kind_of_requirement huse
      simp [env, Engine.env, hother] at hkind

end Course

/-- In every course of a run, the uses of the platform in a completed unit are
settled against one minimum, and the run of the engine takes such a course. -/
theorem courses_settle_uses {detectors : List (Detector W S)}
    (hr : ofDetectors e.registry detectors = .ok e.registration)
    (hk : detectors[k]? = some newApiDetector) (hfits : ∀ m ∈ e.config.minSdk, m < Word.size 32)
    (root : Path) {trees : List Tree} (htrees : ∀ t ∈ trees, ∃ b : Builder, b.Made ∧ t = b.build)
    (unparsed : List Unparsed) :
    (∀ c : e.Course root trees unparsed, ∀ d ∈ c.completed, c.SettlesUses k d) ∧
    ((∀ x ∈ e.registration.detectors, x.KeepsRequests) →
      ∀ w, ∃ c : e.Course root trees unparsed, c.IsRun w) := by
  refine ⟨fun c d hd => ?_, fun hkeeps => exists_isRun hkeeps root trees unparsed⟩
  have hmem : d.tree ∈ trees := c.isAllOrNothing.units.subset (List.mem_map_of_mem hd)
  obtain ⟨b, hb, htree⟩ := htrees d.tree hmem
  exact c.settlesUses hr hk hfits hd (htree ▸ hb.ordered)

/-! ### A manifest and a creation -/

theorem newApiDetector_keepsRequests : (newApiDetector : Detector W S).KeepsRequests where
  on event env me desk := by
    cases event with
    | enter n =>
        have hdoes := checkRequirement_does (S := S) env desk.world n me desk rfl
        exact fun h => (congrArg (·.2.world.cancelled) hdoes).trans h
    | element n =>
        obtain ⟨_, _, -, -, hdoes⟩ := recordLevels_tells (S := S) (v := env.view) n fun _ => True
        have hdoes := hdoes env rfl desk.world me desk rfl
        exact fun h => (congrArg (·.2.world.cancelled) hdoes).trans h
    | _ => exact id
  settle f facts w := by
    simp only [newApiDetector]
    split
    · exact .refl w
    · split <;> exact .refl w

def minimumManifest : Builder :=
  (Builder.start ⟨"AndroidManifest.xml"⟩ .xml .manifest none {}).within
    { kind := .xmlElement, name := some "uses-sdk" }
    (·.leaf { kind := .xmlAttribute, name := some "minSdkVersion", value := some "21" })

def creation (phase : Phase) (scope : Scope) : Builder :=
  (Builder.start ⟨"A.java"⟩ phase scope none {}).leaf { kind := .new, typeName := some "a.B" }

def creationLevels : ApiLevels := ⟨[("a/B", { since := 26 })]⟩

/-- The creation is reported, with the minimum of the manifest that comes after
it. -/
theorem run_creation_settles :
    ∃ e : Engine Unit Unit,
      ofDetectors e.registry [newApiDetector] = .ok e.registration ∧
      e.levels = some creationLevels ∧
      ∃ c : e.Course ⟨"."⟩ [(creation .source .javaFile).build, minimumManifest.build] [],
        (c.IsRun { host := () } ∧ ∀ d ∈ c.completed, c.SettlesUses 0 d) ∧
        c.report.findings.length = 1 ∧
        ∃ f ∈ c.report.findings,
          f.message = "Call requires API level 26 (current min is 21): `new a.B`" := by
  have htrees : ∀ t ∈ [(creation .source .javaFile).build, minimumManifest.build],
      ∃ b : Builder, b.Made ∧ t = b.build := by
    simp only [List.mem_cons, List.not_mem_nil, or_false]
    rintro t (rfl | rfl)
    · exact ⟨_, .leaf (.start ..) _, rfl⟩
    · exact ⟨_, .leave (.leaf (.enter (.start ..) _) _), rfl⟩
  have hcourse (e : Engine Unit Unit)
      (hr : ofDetectors e.registry [newApiDetector] = .ok e.registration)
      (hmin : e.config.minSdk = none) :
      ∃ c : e.Course ⟨"."⟩ [(creation .source .javaFile).build, minimumManifest.build] [],
        c.IsRun { host := () } ∧ ∀ d ∈ c.completed, c.SettlesUses 0 d := by
    obtain ⟨hsettles, hruns⟩ := courses_settle_uses (k := 0) hr rfl (by simp [hmin]) ⟨"."⟩ htrees []
    have hkeeps : ∀ x ∈ e.registration.detectors, x.KeepsRequests := by
      rw [(of_ofDetectors hr).1]
      exact List.forall_mem_singleton.mpr newApiDetector_keepsRequests
    obtain ⟨c, hrun⟩ := hruns hkeeps { host := () }
    exact ⟨c, hrun, hsettles c⟩
  refine ⟨⟨{}, ⟨[Issue.lintError, newApiIssue]⟩, _, some creationLevels, none, none, []⟩, rfl, rfl,
    Exists.imp ?_ (hcourse _ rfl rfl)⟩
  rintro c ⟨hrun, hsettles⟩
  refine ⟨⟨hrun, hsettles⟩, ?_⟩
  rw [hrun.report, run]
  dsimp only [Sink.finish]
  refine ⟨?_, ?_⟩
  · rw [List.length_mergeSort]
    decide +kernel
  · simp only [List.mem_mergeSort]
    decide +kernel

/-- The detector does not look at compiled code: there the same creation needs
the same level, nothing vouches for it and it is not suppressed, but the unit is
completed without a finding. -/
theorem run_compiled_creation :
    ∃ e : Engine Unit Unit,
      ofDetectors e.registry [newApiDetector] = .ok e.registration ∧
      e.config.minSdk = none ∧ e.config.isReportable newApiIssue = true ∧
      ∃ levels, e.levels = some levels ∧
      let t := (creation .bytecode .classFile).build
      let v := (e.env (SymbolTable.ofUnits [t] e.compiled) t).view
      (requirement v levels 1).map Prod.fst = some 26 ∧ guaranteedLevel v 1 = 0 ∧
        e.config.suppressionAt newApiIssue t 1 = none ∧
        let report := (e.analyzeTrees [t] { host := () }).1
        report.findings.length = 0 ∧ report.failures.length = 0 ∧ report.files = 1 ∧
          report.cancelled = false := by
  refine ⟨⟨{}, ⟨[Issue.lintError, newApiIssue]⟩, _, some creationLevels, none, none, []⟩, rfl, rfl,
    by decide, _, rfl, by decide +kernel, by decide +kernel, by decide +kernel, ?_,
    by decide +kernel, by decide +kernel, by decide +kernel⟩
  rw [analyzeTrees, run]
  dsimp only [Sink.finish]
  rw [List.length_mergeSort]
  decide +kernel

end Engine

end LintEngine
