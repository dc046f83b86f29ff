import LintEngine.Proofs.Detector.Effects
import LintEngine.Proofs.Rules.Compatibility
import LintEngine.Proofs.Tree.PreOrder
import Mathlib.Data.List.TakeWhile

/-!
Switches over the values of a typedef.

A switch with neither a default nor a bare value among its labels ought to deal
with every constant of the typedef. What it does deal with is decided by those
labels that resolve to a field: a label stands for its own field, or for the one
that it is an alias of, and for every constant of its value. The other constants
are handed in as missing, in the order of the typedef.
-/

namespace LintEngine

/-! ### Labels -/

namespace Tree.Ordered

variable {t : Tree} (h : t.Ordered)

include h

/-- Parentheses and casts are skipped as long as there is something in them. -/
theorem children_skipParentheses (n : NodeId)
    (htransparent : (t.kind (t.skipParentheses n)).isTransparent = true) :
    t.children (t.skipParentheses n) = [] := by
  fun_induction t.skipParentheses n with
  | case1 n hkind inner hinner hbelow ih => exact ih htransparent
  | case2 n hkind inner hinner hbelow =>
      exact absurd (h.below_of_mem_children (List.mem_of_getLast? hinner)) hbelow
  | case3 n hkind hnone => exact List.getLast?_eq_none_iff.mp hnone
  | case4 n hkind => exact absurd htransparent hkind

end Tree.Ordered

namespace Rules

/-- The cases of a switch. Its first child is the value that it selects by. -/
def casesOf (t : Tree) (n : NodeId) : List NodeId :=
  (t.children n).tail.filter fun c => t.kind c == .case

def labelNodes (t : Tree) (n : NodeId) : List NodeId :=
  (casesOf t n).flatMap fun c =>
    ((t.children c).filter fun l => t.kind l != .block).map t.skipParentheses

def fieldAt? (v : View) (l : NodeId) : Option FieldName :=
  Typedef.fieldOf? v (Expr.ofNode v.tree l) (.node l)

/-- A switch that ought to deal with every constant of a typedef: its value has
this typedef, and there is neither a default nor a bare value among its labels. -/
structure OughtToCover (v : View) (d : Typedef) (n : NodeId) : Prop where
  kind : v.tree.kind n = .switch
  selector : (v.tree.children n).head?.bind (selectorTypedef v maxSteps) = some d
  noDefault : ∀ c ∈ casesOf v.tree n, v.tree.name c ≠ some "default"
  noLiteral : ∀ l ∈ labelNodes v.tree n, v.tree.kind l ≠ .literal

/-- A label says nothing about a constant: if it resolves to a field, it neither
names the field of the constant, nor is from outside the typedef and an alias of
this field, nor has the value of the constant. -/
def PassesOver (v : View) (d : Typedef) (c : Constant) (l : NodeId) : Prop :=
  ∀ f ∈ fieldAt? v l,
    c.field ≠ some f ∧
    ((∀ m ∈ d.constants, m.field ≠ some f) → ∀ g ∈ aliasOf v f, c.field ≠ some g) ∧
    ∀ x ∈ c.value, ∀ y ∈ v.evaluateNode l, y.sameValue x = false

instance (v : View) (d : Typedef) (c : Constant) : DecidablePred (PassesOver v d c) := fun l =>
  inferInstanceAs (Decidable (∀ f ∈ fieldAt? v l, _ ∧ _))

def IsMissing (v : View) (d : Typedef) (n : NodeId) (c : Constant) : Prop :=
  ∀ l ∈ labelNodes v.tree n, PassesOver v d c l

instance (v : View) (d : Typedef) (n : NodeId) : DecidablePred (IsMissing v d n) := fun c =>
  inferInstanceAs (Decidable (∀ l ∈ labelNodes v.tree n, PassesOver v d c l))

variable {v : View} {d : Typedef} {n : NodeId}

theorem ofNode_arrayInit {t : Tree} {l : NodeId} (hkind : t.kind l = .arrayInit) :
    ∃ items, Expr.ofNode t l = .array items := by
  have hkind : (t.node l).kind = .arrayInit := hkind
  rw [Expr.ofNode]
  simp only [hkind]
  exact ⟨_, rfl⟩

/-- What is read as a name is one, but for parentheses. -/
theorem kind_of_ofNode_reference {t : Tree} {l : NodeId} {qualifier : Option String} {x : String}
    (h : Expr.ofNode t l = .reference qualifier x)
    (hempty : (t.kind l).isTransparent = true → t.children l = []) :
    t.kind l = .reference ∨ t.kind l = .select := by
  rw [Expr.ofNode] at h
  dsimp only at h
  split at h
  case h_1 => split at h <;> cases h
  case h_2 hkind => exact .inl hkind
  case h_3 hkind => exact .inr hkind
  case h_4 hkind =>
      have hnil : (t.node l).children = [] := hempty (by rw [Tree.kind, hkind]; rfl)
      rw [hnil] at h
      cases h
  case h_10 =>
      split at h
      · split at h
        · rename_i c hc
          have hkind : t.kind c = .arrayInit := by simpa using List.find?_some hc
          split at h
          · obtain ⟨items, hitems⟩ := ofNode_arrayInit hkind
            cases hitems.symm.trans h
          · cases h
        · cases h
      · cases h
  all_goals cases h

/-- Only names resolve to a field. -/
theorem kind_of_fieldAt? (hordered : v.tree.Ordered) {l : NodeId} {f : FieldName}
    (h : fieldAt? v (v.tree.skipParentheses l) = some f) :
    v.tree.kind (v.tree.skipParentheses l) = .reference ∨
      v.tree.kind (v.tree.skipParentheses l) = .select := by
  rw [fieldAt?] at h
  cases he : Expr.ofNode v.tree (v.tree.skipParentheses l) with
  | reference qualifier x =>
      exact kind_of_ofNode_reference he (hordered.children_skipParentheses l)
  | _ =>
      rw [he] at h
      cases h

variable (v) in
def labelAt (l : NodeId) : Option Label :=
  if v.tree.kind l = .literal then some (.bare l)
  else (fieldAt? v l).map fun f => .field l f (v.evaluateNode l)

theorem labelOf?_eq (hordered : v.tree.Ordered) (l : NodeId) :
    labelOf? v l = labelAt v (v.tree.skipParentheses l) := by
  rw [labelOf?, labelAt]
  dsimp only
  split
  · rename_i hkind
    rw [if_pos hkind]
  · rename_i hkind
    rw [if_neg (by simp [hkind])]
    rfl
  · rename_i hkind
    rw [if_neg (by simp [hkind])]
    rfl
  · rename_i hliteral hreference hselect
    rw [if_neg hliteral]
    cases hfield : fieldAt? v (v.tree.skipParentheses l) with
    | none => rfl
    | some f => exact ((kind_of_fieldAt? hordered hfield).elim hreference hselect).elim

theorem labelsOf_casesOf (hordered : v.tree.Ordered) (n : NodeId) :
    labelsOf v (casesOf v.tree n) = (labelNodes v.tree n).filterMap (labelAt v) := by
  rw [labelsOf, labelNodes, List.filterMap_flatMap]
  refine List.flatMap_congr fun c _ => ?_
  rw [List.filterMap_map, List.filterMap_filter]
  refine List.filterMap_congr fun l _ => ?_
  rw [labelOf?_eq hordered, Function.comp_apply]
  cases hblock : v.tree.kind l == .block <;> simp [bne, hblock]

theorem labels_isBare_iff (hordered : v.tree.Ordered) (n : NodeId) :
    (labelsOf v (casesOf v.tree n)).any Label.isBare = true ↔
      ∃ l ∈ labelNodes v.tree n, v.tree.kind l = .literal := by
  rw [labelsOf_casesOf hordered, List.any_filterMap, List.any_eq_true]
  refine exists_congr fun l => and_congr_right fun _ => ?_
  rw [labelAt]
  by_cases hkind : v.tree.kind l = .literal
  · simp [hkind, Label.isBare]
  · cases fieldAt? v l <;> simp [hkind, Label.isBare]

/-! ### Constants -/

/-- A label deals with a constant of the typedef just if it does not pass over
it. -/
theorem deals_labelAt_iff {c : Constant} (hc : c ∈ d.constants) {l : NodeId}
    (hl : v.tree.kind l ≠ .literal) :
    (labelAt v l).any (deals v d c) = true ↔ ¬PassesOver v d c l := by
  rw [labelAt, if_neg hl, PassesOver]
  cases hfield : fieldAt? v l with
  | none => simp
  | some f =>
      have hcovered : (coveredBy v d f).any c.isField = true ↔
          c.field = some f ∨
            (∀ m ∈ d.constants, m.field ≠ some f) ∧ ∃ g ∈ aliasOf v f, c.field = some g := by
        rw [coveredBy]
        by_cases hmember : d.hasField f = true
        · rw [if_pos hmember, Option.any_some, Constant.isField, beq_iff_eq]
          refine ⟨.inl, Or.rec id ?_⟩
          rintro ⟨hnone, -⟩
          obtain ⟨m, hm, hfield⟩ := List.any_eq_true.mp hmember
          exact absurd (beq_iff_eq.mp hfield) (hnone m hm)
        · have hnone : ∀ m ∈ d.constants, m.field ≠ some f := fun m hm hfield =>
            hmember (List.any_eq_true.mpr ⟨m, hm, beq_iff_eq.mpr hfield⟩)
          rw [if_neg hmember, Option.any_eq_true]
          simp only [Constant.isField, beq_iff_eq]
          exact ⟨fun h => .inr ⟨hnone, h⟩, Or.rec (fun h => absurd h (hnone c hc)) And.right⟩
      have hvalue : (c.value.any fun x => (v.evaluateNode l).any fun y => y.sameValue x) = true ↔
          ∃ x ∈ c.value, ∃ y ∈ v.evaluateNode l, y.sameValue x = true := by
        simp only [Option.any_eq_true]
        rfl
      simp only [Option.map_some, Option.any_some, deals, Bool.or_eq_true, hcovered, hvalue,
        Option.mem_def, Option.some.injEq, forall_eq', not_and_or]
      push Not
      simp only [or_assoc, Bool.not_eq_false]

/-- The constants that are found missing are those that no label says anything
about, in the order of the typedef. -/
theorem missingConstants_eq (hordered : v.tree.Ordered) (h : OughtToCover v d n) :
    missingConstants v d (labelsOf v (casesOf v.tree n)) =
      d.constants.filter (IsMissing v d n ·) := by
  refine List.filter_congr fun c hc => ?_
  rw [Bool.eq_iff_iff, Bool.not_eq_true', Bool.eq_false_iff, Ne, List.any_eq_true,
    decide_eq_true_iff, labelsOf_casesOf hordered]
  constructor
  · intro hnone l hl
    by_contra hnot
    obtain ⟨label, hlabel, hdeals⟩ :=
      (Option.any_eq_true ..).mp ((deals_labelAt_iff hc (h.noLiteral l hl)).mpr hnot)
    exact hnone ⟨label, List.mem_filterMap.mpr ⟨l, hl, hlabel⟩, hdeals⟩
  · rintro hmissing ⟨label, hlabel, hdeals⟩
    obtain ⟨l, hl, hlabel⟩ := List.mem_filterMap.mp hlabel
    exact (deals_labelAt_iff hc (h.noLiteral l hl)).mp
      ((Option.any_eq_true ..).mpr ⟨label, hlabel, hdeals⟩) (hmissing l hl)

/-! ### Findings -/

def keywordOf (t : Tree) (n : NodeId) : Location :=
  { t.location n with stop := min ((t.location n).start + "switch".length) (t.location n).stop }

def shownName (c : Constant) : String := "`" ++ c.render ++ "`"

def missingFinding (t : Tree) (n : NodeId) (c : Constant) : Finding :=
  { Finding.new switchIssue (keywordOf t n) (missingLead ++ shownName c) with
    anchor := some n
    merge := some { lead := missingLead, items := [shownName c] } }

variable (v) in
def labelFindings (d : Typedef) (labels : List Label) : List Finding :=
  ((labels.takeWhile (fun l => !l.isBare) ++ (labels.find? Label.isBare).toList).filterMap
    (labelError v d)).map fun (l, message) => Task.findingAt v switchIssue l message

variable (v) in
def switchFindings (n : NodeId) : List Finding :=
  match v.tree.children n with
  | [] => []
  | selector :: _ =>
    match selectorTypedef v maxSteps selector with
    | none => []
    | some d =>
      if d.constants.isEmpty then []
      else
        let labels := labelsOf v (casesOf v.tree n)
        labelFindings v d labels ++
          if labels.any Label.isBare || (casesOf v.tree n).any (v.tree.name · == some "default") then
            []
          else (missingConstants v d (labels.takeWhile fun l => !l.isBare)).map
            (missingFinding v.tree n)

section

variable {W S : Type}

theorem checkSwitch_does (env : Env W) (w : World W) (n : NodeId) :
    (checkSwitch n : Task W S Unit).Does env w () w (switchFindings env.view n) [] := by
  refine (Task.Does.view_ env w).read_bind ?_
  rw [switchFindings]
  dsimp only
  cases hchildren : env.view.tree.children n with
  | nil => exact Task.Does.pure () env w
  | cons selector rest =>
      have hcases : rest.filter (env.view.tree.kind · == .case) = casesOf env.view.tree n := by
        rw [casesOf, hchildren]
        rfl
      dsimp only
      rw [hcases]
      cases selectorTypedef env.view maxSteps selector with
      | none => exact Task.Does.pure () env w
      | some d =>
          dsimp only
          split
          · exact Task.Does.pure () env w
          · refine Task.Does.bind (Task.Does.forM ?_ _) ?_
            · rintro ⟨l, message⟩
              exact Task.Does.reportAt switchIssue l message env w
            · split
              · exact Task.Does.pure () env w
              · refine Task.Does.forM ?_ _
                intro c
                exact Task.Does.report (missingFinding env.view.tree n c) env w

end

/-- A finding about a label: it belongs to no group, and says something else. -/
structure IsLabelFinding (f : Finding) : Prop where
  issue : f.issue = switchIssue
  data : f.data = none
  merge : f.merge = none
  message : ¬missingLead.toList <+: f.message.toList

theorem isLabelFinding_of_mem {labels : List Label} {f : Finding}
    (h : f ∈ labelFindings v d labels) : IsLabelFinding f := by
  obtain ⟨⟨l, message⟩, herror, rfl⟩ := List.mem_map.mp h
  obtain ⟨label, -, hlabel⟩ := List.mem_filterMap.mp herror
  refine ⟨rfl, rfl, rfl, ?_⟩
  rintro ⟨rest, hrest⟩
  have hhead : message.toList.head? = some 'S' := congrArg List.head? hrest.symm
  cases label with
  | bare id =>
      cases hlabel
      rw [String.toList_append] at hhead
      cases hhead
  | field id f value =>
      rw [labelError] at hlabel
      split at hlabel
      · cases hlabel
      · cases hlabel
        rw [String.toList_append] at hhead
        cases hhead

theorem mem_switchFindings {f : Finding} (h : f ∈ switchFindings v n) :
    IsLabelFinding f ∨ ∃ c, f = missingFinding v.tree n c := by
  rw [switchFindings] at h
  split at h
  · cases h
  · split at h
    · cases h
    · split at h
      · cases h
      · rcases List.mem_append.mp h with h | h
        · exact .inl (isLabelFinding_of_mem h)
        · split at h
          · cases h
          · obtain ⟨c, -, rfl⟩ := List.mem_map.mp h
            exact .inr ⟨c, rfl⟩

theorem OughtToCover.typedef_eq {d' : Typedef} (h : OughtToCover v d n) (h' : OughtToCover v d' n) :
    d = d' :=
  Option.some.inj (h.selector.symm.trans h'.selector)

/-- Where all constants ought to be dealt with, the missing ones are found, in
order. -/
theorem switchFindings_of_oughtToCover (hordered : v.tree.Ordered) (h : OughtToCover v d n) :
    ∃ labelled, (∀ f ∈ labelled, IsLabelFinding f) ∧
      switchFindings v n =
        labelled ++ (d.constants.filter (IsMissing v d n ·)).map (missingFinding v.tree n) := by
  have hbare : (labelsOf v (casesOf v.tree n)).any Label.isBare = false := by
    rw [Bool.eq_false_iff, Ne, labels_isBare_iff hordered]
    rintro ⟨l, hl, hliteral⟩
    exact h.noLiteral l hl hliteral
  have hdefault : (casesOf v.tree n).any (v.tree.name · == some "default") = false := by
    rw [List.any_eq_false]
    exact fun c hc => mt beq_iff_eq.mp (h.noDefault c hc)
  have hall : (labelsOf v (casesOf v.tree n)).takeWhile (fun l => !l.isBare) =
      labelsOf v (casesOf v.tree n) := by
    rw [List.takeWhile_eq_self_iff]
    exact fun l hl => by simpa using List.any_eq_false.mp hbare l hl
  obtain ⟨selector, hselector, htypedef⟩ := Option.bind_eq_some_iff.mp h.selector
  obtain ⟨rest, hchildren⟩ := List.head?_eq_some_iff.mp hselector
  rw [switchFindings, hchildren]
  dsimp only
  rw [htypedef]
  dsimp only
  split
  · rename_i hempty
    refine ⟨[], fun f hf => absurd hf List.not_mem_nil, ?_⟩
    rw [List.isEmpty_iff.mp hempty, List.filter_nil, List.map_nil, List.append_nil]
  · rw [hbare, hdefault, Bool.or_false, if_neg Bool.false_ne_true, hall,
      missingConstants_eq hordered h]
    exact ⟨_, fun f hf => isLabelFinding_of_mem hf, rfl⟩

/-- Elsewhere no constant is found missing. -/
theorem isLabelFinding_of_not_oughtToCover (hordered : v.tree.Ordered)
    (hkind : v.tree.kind n = .switch) (h : ∀ d, ¬OughtToCover v d n) :
    ∀ f ∈ switchFindings v n, IsLabelFinding f := by
  intro f hf
  rw [switchFindings] at hf
  split at hf
  · cases hf
  · rename_i selector rest hchildren
    split at hf
    · cases hf
    · rename_i d htypedef
      split at hf
      · cases hf
      · rcases List.mem_append.mp hf with hf | hf
        · exact isLabelFinding_of_mem hf
        · split at hf
          · cases hf
          · rename_i hgo
            obtain ⟨hbare, hdefault⟩ := not_or.mp (mt Bool.or_eq_true_iff.mpr hgo)
            refine absurd ⟨hkind, ?_, fun c hc hname => ?_, fun l hl hliteral => ?_⟩ (h d)
            · rw [hchildren]
              exact htypedef
            · exact hdefault (List.any_eq_true.mpr ⟨c, hc, beq_iff_eq.mpr hname⟩)
            · exact hbare ((labels_isBare_iff hordered n).mpr ⟨l, hl, hliteral⟩)

end Rules

end LintEngine
