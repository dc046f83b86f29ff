import LintEngine.Proofs.Tree.Finishing
import Mathlib.Order.Bounds.Basic

/-!
Which declaration a simple name means. Of the scopes around its use, a class offers
its first field of that name, a method or lambda its first parameter, and any other
node the last variable before the child that leads to the use. The nearest scope that
offers something answers.

So an inner scope hides an outer one, and in a block a later variable hides an earlier
one. A local variable is not in view in its own initializer: there its name means what
it meant before.
-/

namespace LintEngine

namespace Tree

variable {t : Tree} {use via scope child d : NodeId} {x : String}

def declaring (t : Tree) (scope : NodeId) (kinds : List NodeKind) (x : String) : Set NodeId :=
  {c | c ∈ t.children scope ∧ t.kind c ∈ kinds ∧ t.name c = some x}

/-- What a scope offers to a use of a name somewhere below it. Children stand in the
order of their indices, so the first one is the least. -/
inductive Offers (t : Tree) (scope use : NodeId) (x : String) (d : NodeId) : Prop
  | field (hscope : t.kind scope = .classDecl)
      (hfirst : IsLeast (t.declaring scope [.field] x) d)
  | parameter (hscope : t.kind scope = .method ∨ t.kind scope = .lambda)
      (hfirst : IsLeast (t.declaring scope [.parameter] x) d)
  | earlier {child : NodeId} (hscope : t.kind scope ∉ [.classDecl, .method, .lambda])
      (hchild : child ∈ t.children scope) (hway : child ∈ t.selfAndAncestors use)
      (hlast : IsGreatest (t.declaring scope [.localVariable, .parameter] x ∩ Set.Iio child) d)

/-- The nearest scope around a node that offers something to a use of a name. -/
structure IsNearestOffer (t : Tree) (via use : NodeId) (x : String) (scope d : NodeId) : Prop where
  around : scope ∈ t.ancestors via
  offers : t.Offers scope use x d
  /-- No scope in between offers anything. -/
  inner : ∀ s ∈ t.ancestors via, scope ∈ t.ancestors s → ∀ d', ¬t.Offers s use x d'

/-- If any scope offers something, one of them is the nearest. -/
theorem exists_isNearestOffer {s : NodeId} (hs : s ∈ t.ancestors via) (hd : t.Offers s use x d) :
    ∃ scope d, t.IsNearestOffer via use x scope d := by
  classical
  let offersAt (s : NodeId) : Prop := s ∈ t.ancestors via ∧ ∃ d, t.Offers s use x d
  have hle : s ≤ via := Nat.le_of_lt (lt_of_mem_ancestors hs)
  obtain ⟨haround, d', hd'⟩ : offersAt (Nat.findGreatest offersAt via) :=
    Nat.findGreatest_spec hle ⟨hs, d, hd⟩
  refine ⟨_, d', haround, hd', fun s hs hbetween d hd => ?_⟩
  have hgreater := lt_of_mem_ancestors hbetween
  exact Nat.findGreatest_is_greatest hgreater (Nat.le_of_lt (lt_of_mem_ancestors hs)) ⟨hs, d, hd⟩

/-! ### First and last children -/

section

variable {l : List NodeId} {p : NodeId → Bool}

theorem find?_eq_some_iff_of_pairwise {r : NodeId → NodeId → Prop} (hr : ∀ a b, r a b → ¬r b a)
    (hl : l.Pairwise r) :
    l.find? p = some d ↔ d ∈ l ∧ p d = true ∧ ∀ c ∈ l, p c = true → c = d ∨ r d c := by
  induction l with
  | nil => simp
  | cons a l ih =>
      obtain ⟨ha, hl⟩ := List.pairwise_cons.mp hl
      rw [List.find?_cons]
      cases hp : p a with
      | true =>
          constructor
          · rintro ⟨⟩
            exact ⟨List.mem_cons_self, hp, fun c hc _ => (List.mem_cons.mp hc).imp_right (ha c)⟩
          · rintro ⟨hd, -, hfirst⟩
            rcases hfirst a List.mem_cons_self hp with rfl | hda
            · rfl
            · rcases List.mem_cons.mp hd with rfl | hd
              · rfl
              · exact absurd hda (hr _ _ (ha d hd))
      | false =>
          simp only [ih hl, List.mem_cons, forall_eq_or_imp, hp, Bool.false_eq_true, false_imp_iff,
            true_and]
          refine and_congr_left fun ⟨hpd, _⟩ => (or_iff_right fun heq => ?_).symm
          rw [heq, hp] at hpd
          cases hpd

theorem find?_eq_some_iff_isLeast (hl : l.Pairwise (· < ·)) :
    l.find? p = some d ↔ IsLeast {c | c ∈ l ∧ p c = true} d := by
  rw [find?_eq_some_iff_of_pairwise (fun _ _ => Nat.lt_asymm) hl, IsLeast, lowerBounds]
  simp only [Set.mem_ofPred_eq, and_assoc, and_imp, Nat.le_iff_lt_or_eq, or_comm, eq_comm]

theorem reverse_find?_eq_some_iff_isGreatest (hl : l.Pairwise (· < ·)) :
    l.reverse.find? p = some d ↔ IsGreatest {c | c ∈ l ∧ p c = true} d := by
  have hreverse : l.reverse.Pairwise (· > ·) := List.pairwise_reverse.mpr hl
  rw [find?_eq_some_iff_of_pairwise (fun _ _ => Nat.lt_asymm) hreverse, IsGreatest, upperBounds]
  simp only [Set.mem_ofPred_eq, List.mem_reverse, and_assoc, and_imp, Nat.le_iff_lt_or_eq, or_comm]

theorem takeWhile_ne_eq_filter (hl : l.Pairwise (· < ·)) (hc : child ∈ l) :
    l.takeWhile (· != child) = l.filter (· < child) := by
  obtain ⟨before, after, rfl⟩ := List.append_of_mem hc
  obtain ⟨-, hafter, hbefore⟩ := List.pairwise_append.mp hl
  have hlt : ∀ b ∈ before, b < child := fun b hb => hbefore b hb child List.mem_cons_self
  rw [List.takeWhile_append_of_pos fun b hb => bne_iff_ne.mpr (Nat.ne_of_lt (hlt b hb)),
    List.takeWhile_cons_of_neg (by simp), List.filter_append,
    List.filter_eq_self.mpr fun b hb => decide_eq_true (hlt b hb),
    List.filter_eq_nil_iff.mpr fun a ha => ?_]
  rcases List.mem_cons.mp ha with rfl | ha
  · simp
  · simpa using Nat.le_of_lt ((List.pairwise_cons.mp hafter).1 a ha)

end

namespace Ordered

variable (h : t.Ordered)

include h

/-- The variables declared before the child on the way to the use. -/
theorem earlier_eq (hmem : child ∈ t.children scope) :
    (if (t.children scope).contains child then (t.children scope).takeWhile (· != child) else []) =
      (t.children scope).filter (· < child) := by
  rw [if_pos (List.contains_iff_mem.mpr hmem), takeWhile_ne_eq_filter h.children_sorted hmem]

/-- A search from the child on the way to the use finds what the scope offers. -/
theorem declaredIn_eq_some_iff (hscope : t.parent child = some scope)
    (hchild : child ∈ t.selfAndAncestors use) :
    t.declaredIn scope child x = some d ↔ t.Offers scope use x d := by
  have hmem : child ∈ t.children scope := h.mem_children.mpr hscope
  have hsorted := h.children_sorted (n := scope)
  have hfirst : ∀ kind : NodeKind,
      (t.children scope).find? (fun c => t.kind c == kind && t.name c == some x) = some d ↔
        IsLeast (t.declaring scope [kind] x) d := fun kind => by
    rw [find?_eq_some_iff_isLeast hsorted]
    simp [declaring]
  have hlast : ((t.children scope).filter (· < child)).reverse.find? (fun c =>
      (t.kind c == .localVariable || t.kind c == .parameter) && t.name c == some x) = some d ↔
        IsGreatest (t.declaring scope [.localVariable, .parameter] x ∩ Set.Iio child) d := by
    rw [reverse_find?_eq_some_iff_isGreatest (hsorted.filter _)]
    refine iff_of_eq (congrArg (IsGreatest · d) (Set.ext fun c => ?_))
    simp [declaring]
    tauto
  rw [declaredIn, h.earlier_eq hmem]
  constructor
  · intro hd
    split at hd
    · exact .field ‹_› ((hfirst _).mp hd)
    · exact .parameter (.inl ‹_›) ((hfirst _).mp hd)
    · exact .parameter (.inr ‹_›) ((hfirst _).mp hd)
    · rename_i hclass hmethod hlambda
      exact .earlier (by simpa using ⟨hclass, hmethod, hlambda⟩) hmem hchild (hlast.mp hd)
  · intro hd
    cases hd with
    | field hkind hd =>
        rw [hkind]
        exact (hfirst _).mpr hd
    | parameter hkind hd =>
        rcases hkind with hkind | hkind <;> rw [hkind] <;> exact (hfirst _).mpr hd
    | @earlier child' hkind hmem' hway hd =>
        -- only one child leads to the use
        obtain rfl : child' = child :=
          h.child_eq_of_mem (h.mem_children.mp hmem') hscope hway hchild
        simp only [List.mem_cons, List.not_mem_nil, or_false, not_or] at hkind
        obtain ⟨hclass, hmethod, hlambda⟩ := hkind
        split
        · exact absurd ‹_› hclass
        · exact absurd ‹_› hmethod
        · exact absurd ‹_› hlambda
        · exact hlast.mpr hd

/-- The search for a name goes outward to the nearest scope that offers something. -/
theorem resolveLocal_eq_some_iff_of_mem (hvia : via ∈ t.selfAndAncestors use) :
    t.resolveLocal x via = some d ↔ ∃ scope, t.IsNearestOffer via use x scope d := by
  induction via using Nat.strongRecOn with
  | _ via ih =>
      cases hp : t.parent via with
      | none =>
          rw [resolveLocal_of_parent_eq_none hp]
          refine iff_of_false (by rintro ⟨⟩) ?_
          rintro ⟨scope, hnear⟩
          simpa [ancestors_eq_nil hp] using hnear.around
      | some p =>
          have hchain : t.ancestors via = p :: t.ancestors p := h.ancestors_of_parent hp
          have hup : p ∈ t.selfAndAncestors use := by
            refine mem_selfAndAncestors_trans (mem_selfAndAncestors_of_mem ?_) hvia
            rw [hchain]
            exact List.mem_cons_self
          have hrest := ih p (h.parent_lt hp).1 hup
          have hoffer : ∀ d, t.declaredIn p via x = some d ↔ t.Offers p use x d :=
            fun d => h.declaredIn_eq_some_iff hp hvia
          rw [h.resolveLocal_of_parent hp, Option.or_eq_some_iff, hoffer, hrest]
          constructor
          · rintro (hd | ⟨hnone, scope, hnear⟩)
            · refine ⟨p, by rw [hchain]; exact List.mem_cons_self, hd, fun s hs hbetween => ?_⟩
              rw [hchain] at hs
              have hle : s ≤ p := le_of_mem_selfAndAncestors hs
              exact absurd (lt_of_mem_ancestors hbetween) (Nat.not_lt.mpr hle)
            · refine ⟨scope, ?_, hnear.offers, fun s hs hbetween d' hd' => ?_⟩
              · rw [hchain]
                exact List.mem_cons_of_mem _ hnear.around
              · rw [hchain] at hs
                rcases List.mem_cons.mp hs with rfl | hs
                · rw [← hoffer, hnone] at hd'
                  cases hd'
                · exact hnear.inner s hs hbetween d' hd'
          · rintro ⟨scope, hnear⟩
            have haround := hnear.around
            rw [hchain] at haround
            rcases List.mem_cons.mp haround with rfl | haround
            · exact .inl hnear.offers
            · refine .inr ⟨?_, scope, haround, hnear.offers, fun s hs => ?_⟩
              · refine Option.eq_none_iff_forall_ne_some.mpr fun d' hd' => ?_
                refine hnear.inner p ?_ haround d' ((hoffer d').mp hd')
                rw [hchain]
                exact List.mem_cons_self
              · refine hnear.inner s ?_
                rw [hchain]
                exact List.mem_cons_of_mem _ hs

theorem resolveLocal_eq_some_iff :
    t.resolveLocal x use = some d ↔ ∃ scope, t.IsNearestOffer use use x scope d :=
  h.resolveLocal_eq_some_iff_of_mem self_mem_selfAndAncestors

theorem resolveLocal_eq_none_iff :
    t.resolveLocal x use = none ↔ ∀ s ∈ t.ancestors use, ∀ d, ¬t.Offers s use x d := by
  constructor
  · intro hnone s hs d hd
    obtain ⟨scope, d', hnear⟩ := exists_isNearestOffer hs hd
    rw [h.resolveLocal_eq_some_iff.mpr ⟨scope, hnear⟩] at hnone
    cases hnone
  · intro hall
    refine Option.eq_none_iff_forall_ne_some.mpr fun d hd => ?_
    obtain ⟨scope, hnear⟩ := h.resolveLocal_eq_some_iff.mp hd
    exact hall scope hnear.around d hnear.offers

theorem lt_of_resolveLocal (hd : t.resolveLocal x use = some d) (hkind : t.kind d = .localVariable)
    {m : NodeId} (hm : m ∈ t.descendants d) : m < use := by
  obtain ⟨hlt, hout⟩ := h.before_of_resolveLocal hd hkind
  have hsize : d < t.size := lt_size_of_kind (by rw [hkind]; decide)
  obtain ⟨hm, hchain⟩ := (h.mem_descendants hsize).mp hm
  -- otherwise the use would stand in the range of indices below the declaration
  refine Nat.lt_of_not_le fun hle => hout ?_
  exact h.mem_selfAndAncestors_of_le hchain hm (Nat.le_of_lt hlt) hle

end Ordered

/-- The search for a simple name answers with what the nearest scope offers, and with
nothing exactly if no scope around the use offers anything. If the answer is a local
variable, its declaration stands before the use as a whole, so the use is not in it. -/
theorem resolveLocal_finds_nearest {b : Builder} (h : b.Made) (x : String) (use : NodeId) :
    (∀ d, b.build.resolveLocal x use = some d ↔
      ∃ scope, b.build.IsNearestOffer use use x scope d) ∧
    (b.build.resolveLocal x use = none ↔
      ∀ s ∈ b.build.ancestors use, ∀ d, ¬b.build.Offers s use x d) ∧
    (∀ d, b.build.resolveLocal x use = some d → b.build.kind d = .localVariable →
      (∀ m ∈ b.build.descendants d, m < use) ∧ use ∉ b.build.descendants d) := by
  refine ⟨fun _ => h.ordered.resolveLocal_eq_some_iff, h.ordered.resolveLocal_eq_none_iff, ?_⟩
  intro d hd hkind
  have hbefore : ∀ m ∈ b.build.descendants d, m < use :=
    fun _ hm => h.ordered.lt_of_resolveLocal hd hkind hm
  exact ⟨hbefore, fun hmem => Nat.lt_irrefl use (hbefore use hmem)⟩

/-! ### A variable that hides another one -/

/-- A method with a parameter, a block with a variable of the same name, and in it a
block with a second one, which is initialized with the name. -/
def shadowing : Builder :=
  (Builder.start ⟨"A.java"⟩ .source .javaFile none {}).within { kind := .method } fun b =>
    (b.leaf { kind := .parameter, name := some "x" }).within { kind := .block } fun b =>
      (b.leaf { kind := .localVariable, name := some "x" }).within { kind := .block } fun b =>
        b.within { kind := .localVariable, name := some "x" } fun b =>
          b.leaf { kind := .reference, name := some "x" }

theorem shadowing_made : shadowing.Made := by
  refine .leave (.leave (.leave (.leave (.leaf (.enter (.enter (.leaf ?_ _) _) _) _))))
  exact .enter (.leaf (.enter (.start ..) _) _) _

/-- In the initializer the name means the variable of the outer block: not the one that
is being initialized, and not the parameter. -/
theorem resolveLocal_shadowing :
    shadowing.Made ∧ shadowing.build.resolveLocal "x" 7 = some 4 ∧
      (∃ scope, shadowing.build.IsNearestOffer 7 7 "x" scope 4) ∧
      shadowing.build.kind 4 = .localVariable ∧
      (∀ m ∈ shadowing.build.descendants 4, m < 7) ∧ 7 ∉ shadowing.build.descendants 4 := by
  have hanswer : shadowing.build.resolveLocal "x" 7 = some 4 := by decide +kernel
  have hkind : shadowing.build.kind 4 = .localVariable := by decide +kernel
  obtain ⟨hnearest, -, hbefore⟩ := resolveLocal_finds_nearest shadowing_made "x" 7
  exact ⟨shadowing_made, hanswer, (hnearest 4).mp hanswer, hkind, hbefore 4 hanswer hkind⟩

end Tree

end LintEngine
